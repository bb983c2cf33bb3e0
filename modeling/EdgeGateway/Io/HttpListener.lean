import EdgeGateway.Io.HttpSession

set_option autoImplicit false

/-! # The HTTP server

`Server` of `HttpServer.cpp` and the loop of `runHttpServer` around it: the acceptor with its limit
of connections and its retry, the timer that looks at `should_stop`, the sessions that were created,
and the end of the loop. The context runs one handler at a time. A wait or an operation that was
cancelled has its handler run as well, which then finds `stopping_` or its session closed.
-/

namespace EdgeGateway

/-! ## The handlers of a session -/

namespace HttpSession

/-- The handlers of one session in the queue of the context. -/
inductive Handled : HttpSession → HttpSession → Prop
  | read (s : HttpSession) (outcome : ReadOutcome) (h : s.reading = true) :
      Handled s (s.onRead outcome)
  | timer (s : HttpSession) (id : Nat) (h : id ∈ s.timers) : Handled s (s.onTimer id)
  | posted (s : HttpSession) (before : List (Nat × HttpResponse)) (id : Nat)
      (response : HttpResponse) (after : List (Nat × HttpResponse))
      (h : s.posted = before ++ (id, response) :: after) :
      Handled s ({ s with posted := before ++ after }.reply id response)
  | written (s : HttpSession) (id : Nat) (ok : Bool) (h : s.writing = some id) :
      Handled s (s.onWritten id ok)

/-- What the context still has to run for this session. -/
def outstanding (s : HttpSession) : Nat :=
  s.reading.toNat + s.writing.isSome.toNat + s.timers.length + s.posted.length

/-- An open session reads, writes, or waits for a reply with its timer running. -/
def Attended (s : HttpSession) : Prop :=
  s.closed = false → s.reading = true ∨ s.writing.isSome = true ∨
    s.waiting = true ∧ s.requestId ∈ s.timers

end HttpSession

/-! ## The server -/

/-- A session that was created, and whether it is in `sessions_`. -/
structure Connection where
  session : HttpSession
  member : Bool

/-- The outcomes of `async_accept`. -/
inductive AcceptOutcome
  | connection
  | aborted
  | failed
  deriving DecidableEq

/-- `accepting`, `retrying` and `checking` are the operations of the acceptor and of the two timers
under way; `result` is what `runHttpServer` returned. -/
structure HttpListener where
  connections : List Connection := []
  accepting : Bool := false
  retrying : Bool := false
  checking : Bool := false
  stopping : Bool := false
  result : Option Bool := none

/-- A handler of the session; one that closes it removes it from `sessions_`. -/
def Connection.become (s : HttpSession) (c : Connection) : Connection where
  session := s
  member := c.member && (c.session.closed || !s.closed)

/-- `stop` for one session: the bridge is disabled for all, the members are closed. -/
def Connection.stop (c : Connection) : Connection where
  session :=
    let s := { c.session with bridge := false }
    if c.member then s.close else s
  member := false

namespace HttpListener

def kConnectionLimit : Nat := 256

/-- `sessions_.size()` -/
def size (l : HttpListener) : Nat := l.connections.countP fun c => c.member

def accept (l : HttpListener) : HttpListener := { l with accepting := true }

def checkStop (l : HttpListener) : HttpListener := { l with checking := true }

def stop (l : HttpListener) : HttpListener :=
  if l.stopping then l
  else { l with stopping := true, connections := l.connections.map Connection.stop }

/-- A connection over the limit is closed at once. -/
def insert (l : HttpListener) : HttpListener :=
  if l.size < kConnectionLimit then
    { l with connections := l.connections ++ [⟨HttpSession.accepted, true⟩] }
  else l

def onAccept (outcome : AcceptOutcome) (l : HttpListener) : HttpListener :=
  let l := { l with accepting := false }
  if l.stopping then l
  else
    match outcome with
    | .connection => l.insert.accept
    | .failed => { l with retrying := true }
    | .aborted => l

def onRetry (l : HttpListener) : HttpListener :=
  let l := { l with retrying := false }
  if l.stopping then l else l.accept

def onCheck (shouldStop : Bool) (l : HttpListener) : HttpListener :=
  let l := { l with checking := false }
  if l.stopping then l
  else if shouldStop then l.stop
  else l.checkStop

/-- After `listen`. -/
def listening : HttpListener := checkStop (accept {})

/-- What the context still has to run. -/
def outstanding (l : HttpListener) : Nat :=
  l.accepting.toNat + l.retrying.toNat + l.checking.toNat +
    (l.connections.map fun c => c.session.outstanding).sum

/-! ## Runs -/

/-- A handler of the context. An accept is aborted only once the acceptor was closed. -/
inductive Turn : HttpListener → HttpListener → Prop
  | accept (l : HttpListener) (outcome : AcceptOutcome) (h : l.accepting = true)
      (haborted : outcome = .aborted → l.stopping = true) : Turn l (l.onAccept outcome)
  | retry (l : HttpListener) (h : l.retrying = true) : Turn l l.onRetry
  | check (l : HttpListener) (shouldStop : Bool) (h : l.checking = true) :
      Turn l (l.onCheck shouldStop)
  | session (l : HttpListener) (before : List Connection) (c : Connection)
      (after : List Connection) (s : HttpSession) (h : l.connections = before ++ c :: after)
      (hs : c.session.Handled s) :
      Turn l { l with connections := before ++ c.become s :: after }

/-- The loop of `runHttpServer`; `called` is a reply callback, used by any thread, also after the
loop. The loop ends when the context has nothing left to run, or with an exception. -/
inductive Step : HttpListener → HttpListener → Prop
  | turn (l l' : HttpListener) (h : l.result = none) (hturn : l.Turn l') : Step l l'
  | called (l : HttpListener) (before : List Connection) (c : Connection)
      (after : List Connection) (id : Nat) (response : HttpResponse)
      (h : l.connections = before ++ c :: after) (hid : id ∈ c.session.callbacks) :
      Step l { l with
        connections := before ++ c.become (c.session.callback id response) :: after }
  | returned (l : HttpListener) (h : l.result = none) (hidle : l.outstanding = 0) :
      Step l { l.stop with result := some true }
  | failed (l : HttpListener) (h : l.result = none) : Step l { l.stop with result := some false }

abbrev Run : HttpListener → HttpListener → Prop := Relation.ReflTransGen Step

end HttpListener

/-! ## What the handlers of a session keep -/

namespace HttpSession

variable {s s' : HttpSession}

/-- The server and the bridge stay as they are, and a closed session is not opened again. -/
structure Keeps (s s' : HttpSession) : Prop where
  server : s'.server = s.server
  bridge : s'.bridge = s.bridge
  closed : s.closed = true → s'.closed = true

theorem Keeps.trans {s t u : HttpSession} (h : Keeps s t) (h' : Keeps t u) : Keeps s u :=
  ⟨h'.server.trans h.server, h'.bridge.trans h.bridge,
    fun hclosed => h'.closed (h.closed hclosed)⟩

theorem keeps_of_eq (hserver : s'.server = s.server) (hbridge : s'.bridge = s.bridge)
    (hclosed : s'.closed = s.closed) : Keeps s s' :=
  ⟨hserver, hbridge, fun h => hclosed.trans h⟩

theorem keeps_close : Keeps s s.close := by
  unfold close
  split_ifs with hclosed
  · exact keeps_of_eq rfl rfl rfl
  · exact ⟨rfl, rfl, fun _ => rfl⟩

theorem keeps_read : Keeps s s.read := by
  unfold read
  split_ifs <;> exact keeps_of_eq rfl rfl rfl

theorem keeps_reply (id : Nat) (response : HttpResponse) : Keeps s (s.reply id response) := by
  unfold reply
  split_ifs with hskip
  · exact keeps_of_eq rfl rfl rfl
  · dsimp only
    split_ifs
    · refine Keeps.trans (t := { s with waiting := false }) ?_ keeps_close
      exact keeps_of_eq rfl rfl rfl
    · exact keeps_of_eq rfl rfl rfl

theorem keeps_fail (status : Nat) : Keeps s (s.fail status) := by
  refine Keeps.trans (t := { s with keepAlive := false }.beginRequest) ?_ (keeps_reply _ _)
  exact keeps_of_eq rfl rfl rfl

theorem keeps_callback (id : Nat) (response : HttpResponse) :
    Keeps s (s.callback id response) := by
  unfold callback
  dsimp only
  split_ifs <;> exact keeps_of_eq rfl rfl rfl

/-- The replies given before the handler of the application ended. -/
theorem keeps_callbacks (id : Nat) (replies : List HttpResponse) :
    Keeps s (replies.foldl (fun s response => s.callback id response) s) := by
  induction replies generalizing s with
  | nil => exact keeps_of_eq rfl rfl rfl
  | cons response replies ih => exact (keeps_callback id response).trans ih

theorem keeps_submit (id : Nat) (run : HandlerRun) : Keeps s (s.submit id run) := by
  have hreplies := keeps_callbacks (s := s) id run.replies
  have hanswer : ∀ (t : HttpSession) (response : HttpResponse),
      Keeps t ({ t with keepAlive := false }.reply id response) := by
    intro t response
    refine Keeps.trans (t := { t with keepAlive := false }) ?_ (keeps_reply _ _)
    exact keeps_of_eq rfl rfl rfl
  unfold submit
  dsimp only
  cases run.ending with
  | accepted => exact hreplies
  | refused => exact hreplies.trans (hanswer _ _)
  | threw => exact hreplies.trans (hanswer _ _)

theorem keeps_onRequest (request : ParsedRequest) (run : HandlerRun) :
    Keeps s (s.onRequest request run) := by
  have hparsed : Keeps s (s.parsed request) := keeps_of_eq rfl rfl rfl
  unfold onRequest
  dsimp only
  split_ifs
  · exact hparsed.trans (keeps_fail 400)
  · exact hparsed.trans keeps_close
  · refine hparsed.trans ?_
    refine Keeps.trans (t := (s.parsed request).beginRequest.await) ?_ (keeps_submit _ run)
    exact keeps_of_eq rfl rfl rfl

theorem keeps_onRead (outcome : ReadOutcome) : Keeps s (s.onRead outcome) := by
  have hread : Keeps s { s with reading := false } := keeps_of_eq rfl rfl rfl
  unfold onRead
  dsimp only
  split_ifs
  · exact hread
  · cases outcome with
    | headerLimit => exact hread.trans (keeps_fail 431)
    | bodyLimit => exact hread.trans (keeps_fail 413)
    | ended => exact hread.trans keeps_close
    | malformed => exact hread.trans (keeps_fail 400)
    | request request run => exact hread.trans (keeps_onRequest request run)

theorem keeps_onTimer (id : Nat) : Keeps s (s.onTimer id) := by
  have hwait : Keeps s { s with timers := s.timers.erase id } := keeps_of_eq rfl rfl rfl
  unfold onTimer
  dsimp only
  split_ifs
  · refine hwait.trans (Keeps.trans (t :=
      { s with timers := s.timers.erase id, keepAlive := false }) ?_ (keeps_reply _ _))
    exact keeps_of_eq rfl rfl rfl
  · exact hwait

theorem keeps_onWritten (id : Nat) (ok : Bool) : Keeps s (s.onWritten id ok) := by
  have hdone : Keeps s (if ok = true then record { s with writing := none } (.written id)
      else { s with writing := none }) := by
    split_ifs <;> exact keeps_of_eq rfl rfl rfl
  unfold onWritten
  dsimp only
  split_ifs at hdone ⊢
  · exact hdone.trans keeps_close
  · exact hdone.trans keeps_read
  · exact hdone.trans keeps_close
  · exact hdone.trans keeps_read

theorem Handled.keeps (h : s.Handled s') : Keeps s s' := by
  cases h with
  | read outcome => exact keeps_onRead outcome
  | timer id => exact keeps_onTimer id
  | posted before id response after hposted =>
      refine Keeps.trans (t := { s with posted := before ++ after }) ?_ (keeps_reply _ _)
      exact keeps_of_eq rfl rfl rfl
  | written id ok => exact keeps_onWritten id ok

theorem Handled.step (h : s.Handled s') : Step s s' := by
  cases h with
  | read outcome hreading => exact .read _ outcome hreading
  | timer id htimer => exact .timer _ id htimer
  | posted before id response after hposted => exact .posted _ before id response after hposted
  | written id ok hwriting => exact .written _ id ok hwriting

/-! ## An open session is attended -/

theorem attended_of_closed (h : s.closed = true) : Attended s :=
  fun hopen => absurd (h.symm.trans hopen) Bool.noConfusion

theorem closed_close : s.close.closed = true := by
  unfold close
  split_ifs with hclosed
  · exact hclosed
  · rfl

theorem attended_close : Attended s.close := attended_of_closed closed_close

theorem attended_read (hserver : s.server = true) : Attended s.read := by
  unfold read
  split_ifs with hskip
  · refine attended_of_closed (hskip.resolve_left ?_)
    exact ne_of_eq_of_ne hserver Bool.noConfusion
  · exact fun _ => .inl rfl

theorem attended_reply (h : Attended s) (hserver : s.server = true) (id : Nat)
    (response : HttpResponse) : Attended (s.reply id response) := by
  unfold reply
  split_ifs with hskip
  · exact h
  · -- the server is there, so the response is written
    dsimp only
    rw [if_neg (by rw [hserver]; exact Bool.noConfusion)]
    exact fun _ => .inr (.inl rfl)

/-- A request that cannot be read is answered at once. -/
theorem attended_fail (hserver : s.server = true) (status : Nat) : Attended (s.fail status) := by
  by_cases hclosed : s.closed = true
  · exact attended_of_closed ((keeps_fail status).closed hclosed)
  · unfold fail reply
    dsimp only
    rw [if_neg, if_neg]
    · exact fun _ => .inr (.inl rfl)
    · exact ne_of_eq_of_ne hserver Bool.noConfusion
    · simp [beginRequest, record, hclosed]

theorem attended_callback (h : Attended s) (id : Nat) (response : HttpResponse) :
    Attended (s.callback id response) := by
  unfold callback
  dsimp only
  split_ifs <;> exact h

theorem attended_callbacks (h : Attended s) (id : Nat) (replies : List HttpResponse) :
    Attended (replies.foldl (fun s response => s.callback id response) s) := by
  induction replies generalizing s with
  | nil => exact h
  | cons response replies ih => exact ih (attended_callback h id response)

theorem attended_submit (h : Attended s) (hserver : s.server = true) (id : Nat)
    (run : HandlerRun) : Attended (s.submit id run) := by
  have hreplies := attended_callbacks h id run.replies
  have hserver' := (keeps_callbacks (s := s) id run.replies).server.trans hserver
  have hanswer : ∀ (t : HttpSession) (response : HttpResponse), Attended t → t.server = true →
      Attended ({ t with keepAlive := false }.reply id response) := by
    intro t response ht htserver
    exact attended_reply (s := { t with keepAlive := false }) ht htserver id response
  unfold submit
  dsimp only
  cases run.ending with
  | accepted => exact hreplies
  | refused => exact hanswer _ _ hreplies hserver'
  | threw => exact hanswer _ _ hreplies hserver'

theorem attended_onRequest (hserver : s.server = true) (request : ParsedRequest)
    (run : HandlerRun) : Attended (s.onRequest request run) := by
  unfold onRequest
  dsimp only
  split_ifs
  · exact attended_fail (s := s.parsed request) hserver 400
  · exact attended_close
  · -- the timer of the request runs
    have hawaits : Attended (s.parsed request).beginRequest.await :=
      fun _ => .inr (.inr ⟨rfl, List.mem_append_right _ List.mem_cons_self⟩)
    exact attended_submit hawaits hserver _ run

theorem attended_onRead (hserver : s.server = true) (outcome : ReadOutcome) :
    Attended (s.onRead outcome) := by
  have hserver' : { s with reading := false }.server = true := hserver
  unfold onRead
  dsimp only
  split_ifs with hclosed
  · exact attended_of_closed hclosed
  · cases outcome with
    | headerLimit => exact attended_fail hserver' 431
    | bodyLimit => exact attended_fail hserver' 413
    | ended => exact attended_close
    | malformed => exact attended_fail hserver' 400
    | request request run => exact attended_onRequest hserver' request run

theorem attended_onTimer (h : Attended s) (hserver : s.server = true) (id : Nat) :
    Attended (s.onTimer id) := by
  unfold onTimer
  dsimp only
  split_ifs with hlive
  · by_cases hclosed : s.closed = true
    · exact attended_of_closed ((keeps_reply _ _).closed hclosed)
    · -- the timer of the request that waits: the timeout is the response
      unfold reply
      rw [if_neg (by simp [hclosed, hlive.1, hlive.2])]
      dsimp only
      rw [if_neg (ne_of_eq_of_ne hserver Bool.noConfusion)]
      exact fun _ => .inr (.inl rfl)
  · -- another timer: that of the request that waits still runs
    intro hopen
    rcases h hopen with hreading | hwriting | ⟨hwaiting, htimer⟩
    · exact .inl hreading
    · exact .inr (.inl hwriting)
    · refine .inr (.inr ⟨hwaiting, ?_⟩)
      exact (List.mem_erase_of_ne fun hid => hlive ⟨hwaiting, hid⟩).mpr htimer

theorem attended_onWritten (hserver : s.server = true) (id : Nat) (ok : Bool) :
    Attended (s.onWritten id ok) := by
  unfold onWritten
  dsimp only
  split_ifs
  · exact attended_close
  · exact attended_read hserver
  · exact attended_close
  · exact attended_read hserver

theorem Handled.attended (h : s.Handled s') (hattended : Attended s) (hserver : s.server = true) :
    Attended s' := by
  cases h with
  | read outcome => exact attended_onRead hserver outcome
  | timer id => exact attended_onTimer hattended hserver id
  | posted before id response after hposted =>
      exact attended_reply (s := { s with posted := before ++ after }) hattended hserver id response
  | written id ok => exact attended_onWritten hserver id ok

/-! ## What is outstanding for a closed session -/

theorem onWritten_of_closed (hclosed : s.closed = true) (id : Nat) (ok : Bool) :
    ∃ trace, s.onWritten id ok = { s with writing := none, trace := trace } := by
  have hend : ∀ t : HttpSession, t.closed = true →
      (if ok = false ∨ t.keepAlive = false ∨ t.closed = true then t.close else t.read) = t := by
    intro t ht
    rw [if_pos (.inr (.inr ht))]
    exact if_pos ht
  cases ok with
  | true => exact ⟨_, hend (record { s with writing := none } (.written id)) hclosed⟩
  | false => exact ⟨_, hend { s with writing := none } hclosed⟩

/-- A handler of a closed session only leaves the queue. -/
theorem Handled.outstanding_lt (h : s.Handled s') (hclosed : s.closed = true)
    (hwaiting : s.waiting = false) : s'.outstanding < s.outstanding := by
  cases h with
  | read outcome hreading =>
      unfold onRead outstanding
      dsimp only
      rw [if_pos hclosed, hreading]
      simp only [Bool.toNat_true, Bool.toNat_false]
      omega
  | timer id htimer =>
      have hlength := List.length_erase_of_mem htimer
      have hpos := List.length_pos_of_mem htimer
      unfold onTimer outstanding
      dsimp only
      rw [if_neg (by simp [hwaiting])]
      dsimp only
      omega
  | posted before id response after hposted =>
      unfold reply outstanding
      dsimp only
      rw [if_pos (.inl hclosed), hposted]
      simp only [List.length_append, List.length_cons]
      omega
  | written id ok hwriting =>
      obtain ⟨trace, htrace⟩ := onWritten_of_closed hclosed id ok
      rw [htrace]
      unfold outstanding
      dsimp only
      rw [hwriting]
      simp only [Option.isSome_none, Option.isSome_some, Bool.toNat_true, Bool.toNat_false]
      omega

/-- With the bridge disabled no reply is posted. -/
theorem outstanding_callback (hbridge : s.bridge = false) (id : Nat) (response : HttpResponse) :
    (s.callback id response).outstanding = s.outstanding := by
  unfold callback
  dsimp only
  split_ifs <;> simp_all [outstanding, record]

theorem exists_handled (h : s.outstanding ≠ 0) : ∃ s', s.Handled s' := by
  by_cases hreading : s.reading = true
  · exact ⟨_, .read s .ended hreading⟩
  by_cases hwriting : s.writing.isSome = true
  · obtain ⟨id, hid⟩ := Option.isSome_iff_exists.mp hwriting
    exact ⟨_, .written s id true hid⟩
  rcases htimers : s.timers with _ | ⟨id, timers⟩
  · rcases hposted : s.posted with _ | ⟨⟨id, response⟩, posted⟩
    · exact absurd (by simp [outstanding, hreading, hwriting, htimers, hposted]) h
    · exact ⟨_, .posted s [] id response posted hposted⟩
  · exact ⟨_, .timer s id (htimers ▸ List.mem_cons_self)⟩

end HttpSession

/-! ## The invariant -/

/-- A session in a server that is stopping or not. -/
structure Connection.Good (stopping : Bool) (c : Connection) : Prop where
  run : HttpSession.Run HttpSession.accepted c.session
  server : c.session.server = true
  attended : c.session.Attended
  member : c.member = !c.session.closed
  bridge : c.session.bridge = !stopping
  closed : stopping = true → c.session.closed = true

namespace Connection

variable {stopping : Bool} {c : Connection}

theorem good_accepted : Good false ⟨HttpSession.accepted, true⟩ :=
  ⟨.refl, rfl, HttpSession.attended_read rfl, rfl, rfl, fun h => absurd h Bool.noConfusion⟩

/-- The session leaves `sessions_` with the handler that closes it. -/
theorem Good.become (h : c.Good stopping) {s : HttpSession} (hstep : c.session.Step s)
    (hkeeps : c.session.Keeps s) (hattended : s.Attended) : (c.become s).Good stopping := by
  refine ⟨h.run.tail hstep, hkeeps.server.trans h.server, hattended, ?_,
    hkeeps.bridge.trans h.bridge, fun hstopping => hkeeps.closed (h.closed hstopping)⟩
  show (c.member && (c.session.closed || !s.closed)) = !s.closed
  rw [h.member]
  rcases hclosed : c.session.closed with _ | _
  · simp
  · rw [hkeeps.closed hclosed]
    rfl

theorem Good.handled (h : c.Good stopping) {s : HttpSession} (hs : c.session.Handled s) :
    (c.become s).Good stopping :=
  h.become hs.step hs.keeps (hs.attended h.attended h.server)

theorem Good.called (h : c.Good stopping) {id : Nat} (response : HttpResponse)
    (hid : id ∈ c.session.callbacks) : (c.become (c.session.callback id response)).Good stopping :=
  h.become (.callback _ id response hid) (HttpSession.keeps_callback id response)
    (HttpSession.attended_callback h.attended id response)

/-- The members are the sessions that are open, so all sessions are stopped. -/
theorem Good.stop_session (h : c.Good stopping) : c.stop.session = c.session.stop := by
  show (if c.member = true then ({ c.session with bridge := false } : HttpSession).close
    else { c.session with bridge := false }) = ({ c.session with bridge := false }).close
  split_ifs with hmember
  · rfl
  · have hclosed : c.session.closed = true := by
      rw [h.member] at hmember
      simpa using hmember
    exact (if_pos hclosed).symm

theorem Good.stop (h : c.Good stopping) : c.stop.Good true := by
  have hclosed : c.session.stop.closed = true := HttpSession.closed_close
  have hkeeps : ({ c.session with bridge := false } : HttpSession).Keeps c.session.stop :=
    HttpSession.keeps_close
  have hsession := h.stop_session
  constructor
  · rw [hsession]
    exact h.run.tail (.stop _)
  · rw [hsession]
    exact hkeeps.server.trans h.server
  · rw [hsession]
    exact HttpSession.attended_of_closed hclosed
  · rw [hsession, hclosed]
    rfl
  · rw [hsession]
    exact hkeeps.bridge
  · intro _
    rw [hsession]
    exact hclosed

/-- A closed session waits for no reply. -/
theorem Good.waiting (h : c.Good stopping) (hclosed : c.session.closed = true) :
    c.session.waiting = false := by
  cases (HttpSession.inv_run h.run).1.phase with
  | between hopen => exact absurd (hclosed.symm.trans hopen) Bool.noConfusion
  | waiting hopen => exact absurd (hclosed.symm.trans hopen) Bool.noConfusion
  | writing _ hwaiting => exact hwaiting
  | closed _ hwaiting => exact hwaiting

end Connection

namespace HttpListener

variable {l l' : HttpListener}

/-- The open server accepts or is about to, and looks at `should_stop`; the stopped one has all its
sessions closed. -/
structure Inv (l : HttpListener) : Prop where
  good : ∀ c ∈ l.connections, c.Good l.stopping
  size : l.size ≤ kConnectionLimit
  armed : l.stopping = false → l.accepting = !l.retrying ∧ l.checking = true
  ended : l.result ≠ none → l.stopping = true

theorem inv_listening : Inv listening where
  good := fun _ h => absurd h List.not_mem_nil
  size := Nat.zero_le _
  armed := fun _ => ⟨rfl, rfl⟩
  ended := fun h => absurd rfl h

/-- One session goes on; none joins `sessions_` that way. -/
theorem Inv.replace (h : l.Inv) {before after : List Connection} {c c' : Connection}
    (hconnections : l.connections = before ++ c :: after) (hgood : c'.Good l.stopping)
    (hmember : c'.member = true → c.member = true) :
    Inv { l with connections := before ++ c' :: after } := by
  refine ⟨?_, ?_, h.armed, h.ended⟩
  · intro d hd
    rcases List.mem_append.mp hd with hd | hd
    · exact h.good d (hconnections ▸ List.mem_append_left _ hd)
    · rcases List.mem_cons.mp hd with rfl | hd
      · exact hgood
      · exact h.good d (hconnections ▸ List.mem_append_right _ (List.mem_cons_of_mem _ hd))
  · refine le_trans ?_ h.size
    unfold HttpListener.size
    rw [hconnections]
    simp only [List.countP_append, List.countP_cons]
    have hone : (if c'.member = true then 1 else 0) ≤ if c.member = true then 1 else 0 := by
      split_ifs with hnew hold
      · exact le_refl 1
      · exact absurd (hmember hnew) hold
      · exact Nat.zero_le 1
      · exact le_refl 0
    omega

theorem member_become {s : HttpSession} {c : Connection} (h : (c.become s).member = true) :
    c.member = true :=
  (Bool.and_eq_true_iff.mp h).1

theorem size_stopped (connections : List Connection) :
    (connections.map Connection.stop).countP (fun c => c.member) = 0 := by
  rw [List.countP_map, List.countP_eq_zero]
  intro c _
  exact Bool.noConfusion

theorem stopping_stop : l.stop.stopping = true := by
  unfold stop
  split_ifs with hstopping
  · exact hstopping
  · rfl

theorem Inv.stop (h : l.Inv) : l.stop.Inv := by
  have hstopped := stopping_stop (l := l)
  refine ⟨?_, ?_, fun hopen => absurd (hstopped.symm.trans hopen) Bool.noConfusion,
    fun _ => hstopped⟩
  · unfold HttpListener.stop
    split_ifs with hstopping
    · exact h.good
    · intro c hc
      obtain ⟨d, hd, rfl⟩ := List.mem_map.mp hc
      exact (h.good d hd).stop
  · unfold HttpListener.stop
    split_ifs
    · exact h.size
    · exact le_of_eq_of_le (size_stopped l.connections) (Nat.zero_le _)

/-- A stopped server, whatever of its own operations is left. -/
theorem Inv.of_stopping {l' : HttpListener} (h : l.Inv) (hstopping : l.stopping = true)
    (hconnections : l'.connections = l.connections) (hstopping' : l'.stopping = l.stopping) :
    l'.Inv := by
  have hstopped := hstopping'.trans hstopping
  refine ⟨?_, ?_, fun hopen => absurd (hstopped.symm.trans hopen) Bool.noConfusion,
    fun _ => hstopped⟩
  · rw [hconnections, hstopping']
    exact h.good
  · unfold HttpListener.size
    rw [hconnections]
    exact h.size

theorem Inv.insert (h : l.Inv) (hstopping : l.stopping = false) :
    (∀ c ∈ l.insert.connections, c.Good l.stopping) ∧ l.insert.size ≤ kConnectionLimit := by
  unfold HttpListener.insert
  split_ifs with hroom
  · constructor
    · intro c hc
      rcases List.mem_append.mp hc with hc | hc
      · exact h.good c hc
      · obtain rfl := List.mem_singleton.mp hc
        rw [hstopping]
        exact Connection.good_accepted
    · unfold HttpListener.size at hroom ⊢
      simp only [List.countP_append, List.countP_cons, List.countP_nil, if_true]
      omega
  · exact ⟨h.good, h.size⟩

theorem Inv.onAccept (h : l.Inv) (hresult : l.result = none) (haccepting : l.accepting = true)
    {outcome : AcceptOutcome} (haborted : outcome = .aborted → l.stopping = true) :
    (l.onAccept outcome).Inv := by
  unfold HttpListener.onAccept
  dsimp only
  split_ifs with hstopping
  · exact h.of_stopping hstopping rfl rfl
  · have hopen := Bool.not_eq_true _ ▸ hstopping
    obtain ⟨harmed, hchecking⟩ := h.armed hopen
    have hretrying : l.retrying = false := by
      rw [haccepting] at harmed
      simpa using harmed.symm
    cases outcome with
    | connection =>
        -- the next accept starts whether there was room or not
        obtain ⟨hgood, hsize⟩ := h.insert hopen
        have hinsert : ∀ a : Bool, ({ l with accepting := a } : HttpListener).insert.accept =
            { l.insert with accepting := true } := by
          intro a
          unfold HttpListener.insert accept HttpListener.size
          split_ifs <;> rfl
        have hstays : l.insert.stopping = l.stopping ∧ l.insert.retrying = l.retrying ∧
            l.insert.checking = l.checking ∧ l.insert.result = l.result := by
          unfold HttpListener.insert
          split_ifs <;> exact ⟨rfl, rfl, rfl, rfl⟩
        obtain ⟨hs, hr, hc, hn⟩ := hstays
        dsimp only
        rw [hinsert]
        refine ⟨fun c hmem => ?_, hsize, fun _ => ?_,
          fun hended => absurd (hn.trans hresult) hended⟩
        · show c.Good l.insert.stopping
          rw [hs]
          exact hgood c hmem
        · exact ⟨by rw [hr, hretrying]; rfl, hc.trans hchecking⟩
    | failed => exact ⟨h.good, h.size, fun _ => ⟨rfl, hchecking⟩, h.ended⟩
    | aborted => exact absurd (haborted rfl) hstopping

theorem Inv.onRetry (h : l.Inv) : l.onRetry.Inv := by
  unfold HttpListener.onRetry
  dsimp only
  split_ifs with hstopping
  · exact h.of_stopping hstopping rfl rfl
  · have hopen := Bool.not_eq_true _ ▸ hstopping
    exact ⟨h.good, h.size, fun _ => ⟨rfl, (h.armed hopen).2⟩, h.ended⟩

theorem Inv.onCheck (h : l.Inv) (shouldStop : Bool) : (l.onCheck shouldStop).Inv := by
  unfold HttpListener.onCheck
  dsimp only
  split_ifs with hstopping hstop
  · exact h.of_stopping hstopping rfl rfl
  · -- the server is stopped without the timer being started again
    have hsame : ({ l with checking := false } : HttpListener).stop =
        { l.stop with checking := false } := by
      unfold HttpListener.stop
      rw [if_neg hstopping, if_neg hstopping]
    rw [hsame]
    exact h.stop.of_stopping stopping_stop rfl rfl
  · have hopen := Bool.not_eq_true _ ▸ hstopping
    exact ⟨h.good, h.size, fun _ => ⟨(h.armed hopen).1, rfl⟩, h.ended⟩

theorem Inv.turn (h : l.Inv) (hresult : l.result = none) (hturn : l.Turn l') : l'.Inv := by
  cases hturn with
  | accept outcome haccepting haborted => exact h.onAccept hresult haccepting haborted
  | retry => exact h.onRetry
  | check shouldStop => exact h.onCheck shouldStop
  | session before c after s hconnections hs =>
      have hc : c ∈ l.connections := hconnections ▸ List.mem_append_right _ List.mem_cons_self
      exact h.replace hconnections ((h.good c hc).handled hs) member_become

theorem Inv.step (h : l.Inv) (hstep : l.Step l') : l'.Inv := by
  cases hstep with
  | turn _ hresult hturn => exact h.turn hresult hturn
  | called before c after id response hconnections hid =>
      have hc : c ∈ l.connections := hconnections ▸ List.mem_append_right _ List.mem_cons_self
      exact h.replace hconnections ((h.good c hc).called response hid) member_become
  | returned => exact h.stop.of_stopping stopping_stop rfl rfl
  | failed => exact h.stop.of_stopping stopping_stop rfl rfl

theorem inv_run (h : Run listening l) : l.Inv := by
  induction h with
  | refl => exact inv_listening
  | tail _ hstep ih => exact ih.step hstep

/-! ## The end of the loop -/

theorem stop_eq (h : l.stopping = true) : l.stop = l := if_pos h

/-- A stopped server makes no new operations. -/
theorem Inv.turn_lt (h : l.Inv) (hstopping : l.stopping = true) (hturn : l.Turn l') :
    l'.outstanding < l.outstanding := by
  cases hturn with
  | accept outcome haccepting =>
      unfold HttpListener.onAccept outstanding
      dsimp only
      rw [if_pos hstopping, haccepting]
      simp only [Bool.toNat_true, Bool.toNat_false]
      omega
  | retry hretrying =>
      unfold HttpListener.onRetry outstanding
      dsimp only
      rw [if_pos hstopping, hretrying]
      simp only [Bool.toNat_true, Bool.toNat_false]
      omega
  | check shouldStop hchecking =>
      unfold HttpListener.onCheck outstanding
      dsimp only
      rw [if_pos hstopping, hchecking]
      simp only [Bool.toNat_true, Bool.toNat_false]
      omega
  | session before c after s hconnections hs =>
      have hgood := h.good c (hconnections ▸ List.mem_append_right _ List.mem_cons_self)
      have hclosed := hgood.closed hstopping
      have hless : s.outstanding < c.session.outstanding :=
        hs.outstanding_lt hclosed (hgood.waiting hclosed)
      unfold outstanding
      rw [hconnections]
      simp only [List.map_append, List.map_cons, List.sum_append, List.sum_cons]
      show _ + (_ + (s.outstanding + _)) < _
      omega

/-- A reply that comes late is dropped. -/
theorem Inv.called_eq (h : l.Inv) (hstopping : l.stopping = true) {before after : List Connection}
    {c : Connection} (hconnections : l.connections = before ++ c :: after) (id : Nat)
    (response : HttpResponse) :
    (before ++ c.become (c.session.callback id response) :: after).map
        (fun c => (c.session.posted, c.session.outstanding)) =
      l.connections.map fun c => (c.session.posted, c.session.outstanding) := by
  have hgood := h.good c (hconnections ▸ List.mem_append_right _ List.mem_cons_self)
  have hbridge : c.session.bridge = false := by
    rw [hgood.bridge, hstopping]
    rfl
  have hposted : (c.session.callback id response).posted = c.session.posted := by
    unfold HttpSession.callback
    dsimp only
    split_ifs <;> simp_all [HttpSession.record]
  rw [hconnections, List.map_append, List.map_append, List.map_cons, List.map_cons]
  show _ ++ ((c.session.callback id response).posted,
    (c.session.callback id response).outstanding) :: _ = _
  rw [hposted, HttpSession.outstanding_callback hbridge]

theorem outstanding_congr (hconnections : l'.connections.map
      (fun c => (c.session.posted, c.session.outstanding)) =
        l.connections.map fun c => (c.session.posted, c.session.outstanding))
    (haccepting : l'.accepting = l.accepting) (hretrying : l'.retrying = l.retrying)
    (hchecking : l'.checking = l.checking) : l'.outstanding = l.outstanding := by
  have hsessions := congrArg (List.map Prod.snd) hconnections
  simp only [List.map_map] at hsessions
  unfold outstanding
  rw [haccepting, hretrying, hchecking]
  exact congrArg (_ + ·) (congrArg List.sum hsessions)

theorem Inv.step_le (h : l.Inv) (hstopping : l.stopping = true) (hstep : l.Step l') :
    l'.outstanding ≤ l.outstanding := by
  cases hstep with
  | turn _ _ hturn => exact (h.turn_lt hstopping hturn).le
  | called before c after id response hconnections =>
      apply le_of_eq
      refine outstanding_congr ?_ ?_ ?_ ?_
      · exact h.called_eq hstopping hconnections id response
      all_goals rfl
  | returned =>
      rw [stop_eq hstopping]
      exact le_refl _
  | failed =>
      rw [stop_eq hstopping]
      exact le_refl _

theorem exists_turn (h : l.outstanding ≠ 0) (hstopping : l.stopping = true) :
    ∃ l', l.Turn l' := by
  by_cases haccepting : l.accepting = true
  · exact ⟨_, .accept l .aborted haccepting fun _ => hstopping⟩
  by_cases hretrying : l.retrying = true
  · exact ⟨_, .retry l hretrying⟩
  by_cases hchecking : l.checking = true
  · exact ⟨_, .check l true hchecking⟩
  -- some session has a handler left
  have hsum : (l.connections.map fun c => c.session.outstanding).sum ≠ 0 := by
    simpa [outstanding, haccepting, hretrying, hchecking] using h
  obtain ⟨c, hc, hleft⟩ : ∃ c ∈ l.connections, c.session.outstanding ≠ 0 := by
    by_contra hnone
    push Not at hnone
    exact hsum (List.sum_eq_zero fun n hn => by
      obtain ⟨c, hc, rfl⟩ := List.mem_map.mp hn
      exact hnone c hc)
  obtain ⟨before, after, hconnections⟩ := List.append_of_mem hc
  obtain ⟨s, hs⟩ := HttpSession.exists_handled hleft
  exact ⟨_, .session l before c after s hconnections hs⟩

theorem turn_result (h : l.stopping = true) (hturn : l.Turn l') :
    l'.stopping = true ∧ l'.result = l.result := by
  cases hturn with
  | accept outcome =>
      unfold HttpListener.onAccept
      dsimp only
      rw [if_pos h]
      exact ⟨h, rfl⟩
  | retry =>
      unfold HttpListener.onRetry
      dsimp only
      rw [if_pos h]
      exact ⟨h, rfl⟩
  | check shouldStop =>
      unfold HttpListener.onCheck
      dsimp only
      rw [if_pos h]
      exact ⟨h, rfl⟩
  | session => exact ⟨h, rfl⟩

/-- A stopped loop can always come to its end. -/
theorem Inv.returns (h : l.Inv) (hstopping : l.stopping = true) (hresult : l.result = none) :
    ∃ l', Run l l' ∧ l'.result = some true := by
  have hdrained : ∃ t, Relation.ReflTransGen (fun l l' => l.result = none ∧ l.Turn l') l t ∧
      t.outstanding = 0 ∧ t.result = none := exists_run_of_progress
    (I := fun l => l.Inv ∧ l.stopping = true ∧ l.result = none)
    (F := fun l => l.outstanding = 0 ∧ l.result = none) outstanding
    (fun s t hs hturn => by
      obtain ⟨hstopping', hresult'⟩ := turn_result hs.2.1 hturn.2
      exact ⟨hs.1.turn hs.2.2 hturn.2, hstopping', hresult'.trans hs.2.2⟩)
    (fun s hs hleft => by
      obtain ⟨t, ht⟩ := exists_turn (fun hidle => hleft ⟨hidle, hs.2.2⟩) hs.2.1
      exact ⟨t, ⟨hs.2.2, ht⟩, hs.1.turn_lt hs.2.1 ht⟩)
    ⟨h, hstopping, hresult⟩
  obtain ⟨t, hrun, hidle, hrunning⟩ := hdrained
  have hturns : Run l t := by
    refine Relation.ReflTransGen.mono (fun a b hab => ?_) l t hrun
    exact .turn a b hab.1 hab.2
  exact ⟨_, hturns.tail (.returned t hrunning hidle), rfl⟩

/-! ## Main results -/

/-- **The slots of the server.** At most `kConnectionLimit` sessions are in `sessions_`, and these
are the open ones, so none holds a slot for ever: each open session reads, writes or waits under
its timer. Until it is stopped, the server waits for a connection or for the retry, not both, and
looks at `should_stop`. -/
theorem slots_bounded (hrun : Run listening l) :
    l.size ≤ kConnectionLimit ∧
      (∀ c ∈ l.connections, HttpSession.Run HttpSession.accepted c.session ∧
        (c.member = true ↔ c.session.closed = false) ∧
        (c.session.closed = false → c.session.reading = true ∨ c.session.writing.isSome = true ∨
          c.session.waiting = true ∧ c.session.requestId ∈ c.session.timers)) ∧
      (l.stopping = false → (l.accepting = true ↔ l.retrying = false) ∧ l.checking = true) := by
  have hinv := inv_run hrun
  refine ⟨hinv.size, fun c hc => ?_, fun hopen => ?_⟩
  · have hgood := hinv.good c hc
    refine ⟨hgood.run, ?_, hgood.attended⟩
    rw [hgood.member, Bool.not_eq_true']
  · obtain ⟨harmed, hchecking⟩ := hinv.armed hopen
    refine ⟨?_, hchecking⟩
    rw [harmed, Bool.not_eq_true']

/-- **The end of the server.** Once it is stopped all sessions are closed, every handler leaves less
to run and no reply adds to it; while something is left a handler can run, and so `runHttpServer`
can return. After that no reply is posted any more. -/
theorem stop_drains (hrun : Run listening l) (hstopping : l.stopping = true) :
    (∀ c ∈ l.connections, c.session.closed = true) ∧
      (∀ l', l.Turn l' → l'.outstanding < l.outstanding) ∧
      (∀ l', l.Step l' → l'.outstanding ≤ l.outstanding) ∧
      (l.outstanding ≠ 0 → ∃ l', l.Turn l') ∧
      (l.result = none → ∃ l', Run l l' ∧ l'.result = some true) ∧
      (l.result ≠ none → ∀ l', l.Step l' → l'.result = l.result ∧
        l'.connections.map (fun c => c.session.posted) =
          l.connections.map fun c => c.session.posted) := by
  have hinv := inv_run hrun
  refine ⟨fun c hc => (hinv.good c hc).closed hstopping,
    fun l' hturn => hinv.turn_lt hstopping hturn, fun l' hstep => hinv.step_le hstopping hstep,
    fun hleft => exists_turn hleft hstopping,
    fun hresult => hinv.returns hstopping hresult, fun hresult l' hstep => ?_⟩
  cases hstep with
  | turn _ hnone => exact absurd hnone hresult
  | called before c after id response hconnections =>
      have hposted := congrArg (List.map Prod.fst)
        (hinv.called_eq hstopping hconnections id response)
      simp only [List.map_map] at hposted
      exact ⟨rfl, hposted⟩
  | returned hnone => exact absurd hnone hresult
  | failed hnone => exact absurd hnone hresult

/-- A client sends a request, which the application takes, and the server is told to stop. -/
def served : HttpListener :=
  let l := listening.onAccept .connection
  let l := { l with
    connections := [(⟨HttpSession.accepted, true⟩ : Connection).become
      (HttpSession.accepted.onRead HttpSession.taken)] }
  l.onCheck true

theorem run_served : Run listening served := by
  refine .head (.turn _ _ rfl (.accept _ .connection rfl fun h => by cases h)) ?_
  refine .head (.turn _ _ rfl (.session _ [] ⟨HttpSession.accepted, true⟩ [] _ rfl
    (.read _ HttpSession.taken rfl))) ?_
  exact .single (.turn _ _ rfl (.check _ true rfl))

theorem slots_bounded_served : Run listening served ∧ served.size ≤ kConnectionLimit :=
  ⟨run_served, (slots_bounded run_served).1⟩

theorem stop_drains_served : served.stopping = true ∧ served.outstanding = 2 ∧
    ∃ l', Run served l' ∧ l'.result = some true :=
  ⟨rfl, by decide, (stop_drains run_served rfl).2.2.2.2.1 rfl⟩

end HttpListener

end EdgeGateway
