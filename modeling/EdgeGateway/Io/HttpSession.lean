import EdgeGateway.Basic.Steps
import EdgeGateway.Io.HttpServer
import Mathlib.Data.List.Range
import Mathlib.Logic.Relation
import Mathlib.Tactic.SplitIfs

set_option autoImplicit false

/-! # One HTTP connection

`Session` of `HttpServer.cpp` with its reply bridge. The handlers of the connection run one at a
time; between them, and while the application's handler runs, any thread may use a reply callback.
A timer that was cancelled may have its handler queued already, so the handler of every wait may
still run; replies that were posted run in any order.
-/

namespace EdgeGateway

/-! ## Data -/

/-- What goes to the client. A response to `HEAD` has the length of the body only. -/
structure HttpMessage where
  status : Nat
  version : Nat
  server : String
  contentType : String
  keepAlive : Bool
  contentLength : Nat
  body : List UInt8
  deriving DecidableEq

/-- What the connection reads from a request. -/
structure ParsedRequest extends HttpRequest where
  version : Nat
  keepAlive : Bool

/-- How the application's handler ends. -/
inductive HandlerEnd
  | accepted
  | refused
  | threw
  deriving DecidableEq

/-- The replies that were given before the handler ended, and how it ended. -/
structure HandlerRun where
  replies : List HttpResponse
  ending : HandlerEnd

/-- The outcomes of `async_read`. -/
inductive ReadOutcome
  | headerLimit
  | bodyLimit
  /-- End of stream, timeout or cancellation. -/
  | ended
  | malformed
  | request (request : ParsedRequest) (run : HandlerRun)

inductive HttpEvent
  | readStarted
  | request (id : Nat)
  | replied (id : Nat) (response : HttpResponse)
  | writing (id : Nat) (message : HttpMessage)
  | written (id : Nat)
  | closed
  deriving DecidableEq

/-- The flags of `Session`, then what waits for it: `reading` and `writing` are the operations under
way, `timers` the waits for a business timeout, `callbacks` the reply callbacks that were made and
`delivered` the flags they share, `posted` the replies in the queue of the context. Requests are
numbered from one on; the 64-bit counter does not wrap in the life of a connection. -/
structure HttpSession where
  requestId : Nat := 0
  version : Nat := 11
  keepAlive : Bool := false
  head : Bool := false
  waiting : Bool := false
  closed : Bool := false
  reading : Bool := false
  writing : Option Nat := none
  timers : List Nat := []
  callbacks : List Nat := []
  delivered : Nat → Bool := fun _ => false
  posted : List (Nat × HttpResponse) := []
  bridge : Bool := true
  server : Bool := true
  trace : List HttpEvent := []

/-! ## Responses -/

def invalidRequest (status : Nat) : HttpResponse :=
  .json status (bytes "\x7b\"error\":\"invalid request\"\x7d")

def requestTimeout : HttpResponse := .json 504 (bytes "\x7b\"error\":\"request timeout\"\x7d")

def requestFailed : HttpResponse := .json 500 (bytes "\x7b\"error\":\"request failed\"\x7d")

def serverBusy : HttpResponse := .json 503 (bytes "\x7b\"error\":\"server busy\"\x7d")

def HttpResponse.message (response : HttpResponse) (head : Bool) (version : Nat)
    (keepAlive : Bool) : HttpMessage where
  status := response.status
  version := version
  server := "edge-gateway/Beast"
  contentType := response.contentType
  keepAlive := keepAlive
  contentLength := response.body.length
  body := if head then [] else response.body

namespace HttpSession

/-! ## Functions of the session -/

def record (s : HttpSession) (e : HttpEvent) : HttpSession := { s with trace := s.trace ++ [e] }

/-- The operations under way end with an error later. -/
def close (s : HttpSession) : HttpSession :=
  if s.closed then s else { s.record .closed with closed := true, waiting := false }

def read (s : HttpSession) : HttpSession :=
  if s.server = false ∨ s.closed then s
  else { s.record .readStarted with version := 11, head := false, reading := true }

def reply (id : Nat) (response : HttpResponse) (s : HttpSession) : HttpSession :=
  if s.closed ∨ s.waiting = false ∨ id ≠ s.requestId then s
  else
    let s := { s with waiting := false }
    if s.server = false then s.close
    else
      { s.record (.writing id (response.message s.head s.version s.keepAlive)) with
        writing := some id }

/-- The next request, which waits for its response. -/
def beginRequest (s : HttpSession) : HttpSession :=
  { s.record (.request (s.requestId + 1)) with requestId := s.requestId + 1, waiting := true }

def fail (status : Nat) (s : HttpSession) : HttpSession :=
  let s := { s with keepAlive := false }.beginRequest
  s.reply s.requestId (invalidRequest status)

/-- The reply callback of a request, called by any thread. -/
def callback (id : Nat) (response : HttpResponse) (s : HttpSession) : HttpSession :=
  let s := s.record (.replied id response)
  if s.delivered id then s
  else
    { s with
      delivered := Function.update s.delivered id true
      posted := if s.bridge then s.posted ++ [(id, response)] else s.posted }

/-- The call of the application's handler. -/
def submit (id : Nat) (run : HandlerRun) (s : HttpSession) : HttpSession :=
  let s := run.replies.foldl (fun s response => s.callback id response) s
  match run.ending with
  | .accepted => s
  | .refused => { s with keepAlive := false }.reply id serverBusy
  | .threw => { s with keepAlive := false }.reply id requestFailed

def parsed (request : ParsedRequest) (s : HttpSession) : HttpSession :=
  { s with
    version := request.version
    keepAlive := request.keepAlive
    head := request.method = bytes "HEAD" }

/-- The business timer and the callback of the request that was begun. -/
def await (s : HttpSession) : HttpSession :=
  { s with timers := s.timers ++ [s.requestId], callbacks := s.callbacks ++ [s.requestId] }

/-- A request that was parsed. -/
def onRequest (request : ParsedRequest) (run : HandlerRun) (s : HttpSession) : HttpSession :=
  let s := s.parsed request
  -- the target does not start with a slash
  if request.target.head? ≠ some 47 then s.fail 400
  else if s.server = false then s.close
  else
    let s := s.beginRequest.await
    s.submit s.requestId run

/-! ## Handlers of the context -/

def onRead (outcome : ReadOutcome) (s : HttpSession) : HttpSession :=
  let s := { s with reading := false }
  if s.closed then s
  else
    match outcome with
    | .headerLimit => s.fail 431
    | .bodyLimit => s.fail 413
    | .ended => s.close
    | .malformed => s.fail 400
    | .request request run => s.onRequest request run

/-- The handler of a wait that was not cancelled in time. -/
def onTimer (id : Nat) (s : HttpSession) : HttpSession :=
  let s := { s with timers := s.timers.erase id }
  if s.waiting ∧ s.requestId = id then { s with keepAlive := false }.reply id requestTimeout
  else s

/-- `done` of `reply`. -/
def onWritten (id : Nat) (ok : Bool) (s : HttpSession) : HttpSession :=
  let s := { s with writing := none }
  let s := if ok then s.record (.written id) else s
  if ok = false ∨ s.keepAlive = false ∨ s.closed then s.close else s.read

/-- `Server::stop`, as far as this session goes. -/
def stop (s : HttpSession) : HttpSession := { s with bridge := false }.close

/-! ## Runs -/

/-- `Server::accept` starts the first read. -/
def accepted : HttpSession := read {}

inductive Step : HttpSession → HttpSession → Prop
  | read (s : HttpSession) (outcome : ReadOutcome) (h : s.reading = true) :
      Step s (s.onRead outcome)
  | timer (s : HttpSession) (id : Nat) (h : id ∈ s.timers) : Step s (s.onTimer id)
  | posted (s : HttpSession) (before : List (Nat × HttpResponse)) (id : Nat)
      (response : HttpResponse) (after : List (Nat × HttpResponse))
      (h : s.posted = before ++ (id, response) :: after) :
      Step s ({ s with posted := before ++ after }.reply id response)
  | written (s : HttpSession) (id : Nat) (ok : Bool) (h : s.writing = some id) :
      Step s (s.onWritten id ok)
  | callback (s : HttpSession) (id : Nat) (response : HttpResponse) (h : id ∈ s.callbacks) :
      Step s (s.callback id response)
  | stop (s : HttpSession) : Step s s.stop
  | serverGone (s : HttpSession) : Step s { s with server := false, bridge := false }

abbrev Run : HttpSession → HttpSession → Prop := Relation.ReflTransGen Step

end HttpSession

/-! ## Reading the trace -/

/-- The requests that were read, well-formed or not. -/
def HttpEvent.request? : HttpEvent → Option Nat
  | .request id => some id
  | _ => none

/-- The response that is handed to the socket. -/
def HttpEvent.writing? : HttpEvent → Option (Nat × HttpMessage)
  | .writing id message => some (id, message)
  | _ => none

def HttpEvent.written? : HttpEvent → Option Nat
  | .written id => some id
  | _ => none

/-- A reply through the callback of the request `id`. -/
def HttpEvent.replied? (id : Nat) : HttpEvent → Option HttpResponse
  | .replied id' response => if id' = id then some response else none
  | _ => none

namespace HttpSession

def requests (trace : List HttpEvent) : List Nat := trace.filterMap HttpEvent.request?

def responses (trace : List HttpEvent) : List (Nat × HttpMessage) :=
  trace.filterMap HttpEvent.writing?

def completed (trace : List HttpEvent) : List Nat := trace.filterMap HttpEvent.written?

def repliesTo (id : Nat) (trace : List HttpEvent) : List HttpResponse :=
  trace.filterMap (HttpEvent.replied? id)

/-- The requests for which a response was handed to the socket. -/
def answered (trace : List HttpEvent) : List Nat := (responses trace).map Prod.fst

/-- The responses the server makes itself. -/
def Generated (response : HttpResponse) : Prop :=
  (∃ status ∈ [400, 413, 431], response = invalidRequest status) ∨ response = requestFailed ∨
    response = serverBusy ∨ response = requestTimeout

/-! ## Invariants -/

/-- What the connection is doing: it reads or is about to, waits for a response, writes one, or is
closed. -/
inductive Phase (closed waiting reading : Bool) (writing : Option Nat) (id : Nat)
    (trace : List HttpEvent) : Prop
  | between (hclosed : closed = false) (hwaiting : waiting = false) (hwriting : writing = none)
      (hanswered : answered trace = requests trace)
      (hcompleted : completed trace = requests trace)
  | waiting (hclosed : closed = false) (hwaiting : waiting = true) (hreading : reading = false)
      (hwriting : writing = none) (hrequests : requests trace = completed trace ++ [id])
      (hanswered : answered trace = completed trace)
  | writing (hclosed : closed = false) (hwaiting : waiting = false) (hreading : reading = false)
      (hwriting : writing = some id) (hrequests : requests trace = completed trace ++ [id])
      (hanswered : answered trace = requests trace)
  | closed (hclosed : closed = true) (hwaiting : waiting = false)
      (hanswered : answered trace <+: requests trace)
      (hcompleted : completed trace <+: answered trace)
      (hwriting : ∀ id, writing = some id → answered trace = completed trace ++ [id])

/-- The order of requests, responses and reads. -/
structure OrderInv (s : HttpSession) : Prop where
  phase : Phase s.closed s.waiting s.reading s.writing s.requestId s.trace
  numbered : requests s.trace = List.range' 1 s.requestId
  reads : ∀ before after, s.trace = before ++ .readStarted :: after →
    completed before = requests before

/-- Where the responses come from. -/
structure OriginInv (s : HttpSession) : Prop where
  delivered : ∀ id, s.delivered id = true ↔ repliesTo id s.trace ≠ []
  posted : ∀ p ∈ s.posted, (repliesTo p.1 s.trace).head? = some p.2
  origin : ∀ p ∈ responses s.trace, ∃ response : HttpResponse, ∃ head version keepAlive,
    p.2 = response.message head version keepAlive ∧
      (Generated response ∨ (repliesTo p.1 s.trace).head? = some response)

section Trace

variable {trace : List HttpEvent} {e : HttpEvent}

@[simp] theorem requests_append :
    requests (trace ++ [e]) = requests trace ++ e.request?.toList := by
  cases e <;> simp [requests, HttpEvent.request?]

@[simp] theorem completed_append :
    completed (trace ++ [e]) = completed trace ++ e.written?.toList := by
  cases e <;> simp [completed, HttpEvent.written?]

@[simp] theorem responses_append :
    responses (trace ++ [e]) = responses trace ++ e.writing?.toList := by
  cases e <;> simp [responses, HttpEvent.writing?]

@[simp] theorem answered_append :
    answered (trace ++ [e]) = answered trace ++ (e.writing?.map Prod.fst).toList := by
  unfold answered
  rw [responses_append, List.map_append]
  cases e.writing? <;> rfl

@[simp] theorem repliesTo_append (id : Nat) :
    repliesTo id (trace ++ [e]) = repliesTo id trace ++ (e.replied? id).toList := by
  unfold repliesTo
  rw [List.filterMap_append]
  cases h : e.replied? id <;> simp [h]

/-- The first reply stays the first. -/
theorem first_append {id : Nat} {response : HttpResponse}
    (h : (repliesTo id trace).head? = some response) :
    (repliesTo id (trace ++ [e])).head? = some response := by
  rw [repliesTo_append, List.head?_append, h]
  rfl

/-- A read starts only when all requests so far are answered. -/
theorem reads_append (h : ∀ before after, trace = before ++ .readStarted :: after →
      completed before = requests before)
    (he : e = .readStarted → completed trace = requests trace) :
    ∀ before after, trace ++ [e] = before ++ .readStarted :: after →
      completed before = requests before := by
  intro before after hsplit
  rcases append_eq_cut hsplit with ⟨rest, htrace, -⟩ | ⟨new, rfl, hnew⟩
  · exact h before rest htrace
  · cases new with
    | nil =>
        rw [List.append_nil]
        exact he (List.cons.inj hnew).1
    | cons e' new =>
        obtain ⟨-, hrest⟩ := List.cons.inj hnew
        cases new <;> cases hrest

end Trace

/-! ## Order -/

section Order

variable {s : HttpSession}

/-- The phase depends on the requests, responses and writes of the trace alone. -/
theorem Phase.congr {closed waiting reading : Bool} {writing : Option Nat} {id : Nat}
    {trace trace' : List HttpEvent} (h : Phase closed waiting reading writing id trace)
    (hrequests : requests trace' = requests trace)
    (hcompleted : completed trace' = completed trace)
    (hanswered : answered trace' = answered trace) :
    Phase closed waiting reading writing id trace' := by
  cases h with
  | between h₁ h₂ h₃ h₄ h₅ =>
      refine .between h₁ h₂ h₃ ?_ ?_
      · rw [hanswered, hrequests, h₄]
      · rw [hcompleted, hrequests, h₅]
  | waiting h₁ h₂ h₃ h₄ h₅ h₆ =>
      refine .waiting h₁ h₂ h₃ h₄ ?_ ?_
      · rw [hrequests, hcompleted, h₅]
      · rw [hanswered, hcompleted, h₆]
  | writing h₁ h₂ h₃ h₄ h₅ h₆ =>
      refine .writing h₁ h₂ h₃ h₄ ?_ ?_
      · rw [hrequests, hcompleted, h₅]
      · rw [hanswered, hrequests, h₆]
  | closed h₁ h₂ h₃ h₄ h₅ =>
      refine .closed h₁ h₂ ?_ ?_ ?_
      · rwa [hanswered, hrequests]
      · rwa [hcompleted, hanswered]
      · rwa [hanswered, hcompleted]

/-- An event that neither begins nor ends anything. -/
theorem order_record (h : OrderInv s) {e : HttpEvent} (hrequest : e.request? = none)
    (hwritten : e.written? = none) (hwriting : e.writing? = none) (hread : e ≠ .readStarted) :
    OrderInv (s.record e) := by
  have hrequests : requests (s.record e).trace = requests s.trace := by
    simp [record, hrequest]
  have hcompleted : completed (s.record e).trace = completed s.trace := by
    simp [record, hwritten]
  have hanswered : answered (s.record e).trace = answered s.trace := by
    simp [record, hwriting]
  exact ⟨h.phase.congr hrequests hcompleted hanswered, hrequests.trans h.numbered,
    reads_append h.reads fun h => absurd h hread⟩

/-- Closing, also after a write that failed. -/
theorem order_closed (hclosed : s.closed = false)
    (hanswered : answered s.trace <+: requests s.trace)
    (hcompleted : completed s.trace <+: answered s.trace)
    (hwriting : ∀ id, s.writing = some id → answered s.trace = completed s.trace ++ [id])
    (hnumbered : requests s.trace = List.range' 1 s.requestId)
    (hreads : ∀ before after, s.trace = before ++ .readStarted :: after →
      completed before = requests before) : OrderInv s.close := by
  unfold close
  rw [if_neg (by rw [hclosed]; exact Bool.false_ne_true)]
  refine ⟨.closed rfl rfl ?_ ?_ ?_, ?_, reads_append hreads fun h => by cases h⟩
  · simpa [record, HttpEvent.request?, HttpEvent.writing?] using hanswered
  · simpa [record, HttpEvent.written?, HttpEvent.writing?] using hcompleted
  · simpa [record, HttpEvent.written?, HttpEvent.writing?] using hwriting
  · simpa [record, HttpEvent.request?] using hnumbered

theorem order_close (h : OrderInv s) : OrderInv s.close := by
  cases h.phase with
  | between hclosed hwaiting hwriting hanswered hcompleted =>
      have hsame : completed s.trace = answered s.trace := hcompleted.trans hanswered.symm
      refine order_closed hclosed ?_ ?_ ?_ h.numbered h.reads
      · exact hanswered ▸ List.prefix_rfl
      · exact hsame ▸ List.prefix_rfl
      · intro id hid
        cases hwriting.symm.trans hid
  | waiting hclosed hwaiting hreading hwriting hrequests hanswered =>
      refine order_closed hclosed ?_ ?_ ?_ h.numbered h.reads
      · rw [hanswered, hrequests]
        exact List.prefix_append _ _
      · exact hanswered ▸ List.prefix_rfl
      · intro id hid
        cases hwriting.symm.trans hid
  | writing hclosed hwaiting hreading hwriting hrequests hanswered =>
      refine order_closed hclosed ?_ ?_ ?_ h.numbered h.reads
      · exact hanswered ▸ List.prefix_rfl
      · rw [hanswered, hrequests]
        exact List.prefix_append _ _
      · intro id hid
        obtain rfl := Option.some.inj (hwriting.symm.trans hid)
        exact hanswered.trans hrequests
  | closed hclosed =>
      -- it is closed once
      unfold close
      rw [if_pos hclosed]
      exact h

/-- A read starts between two requests. -/
theorem order_read (h : OrderInv s) (hwaiting : s.waiting = false) (hwriting : s.writing = none) :
    OrderInv s.read := by
  unfold read
  split_ifs with hskip
  · exact h
  · rw [not_or, Bool.not_eq_true] at hskip
    cases h.phase with
    | between hclosed _ _ hanswered hcompleted =>
        -- all requests so far are answered, and their responses written
        refine ⟨.between hclosed hwaiting hwriting ?_ ?_, ?_,
          reads_append h.reads fun _ => hcompleted⟩
        · simpa [record, HttpEvent.request?, HttpEvent.writing?] using hanswered
        · simpa [record, HttpEvent.request?, HttpEvent.written?] using hcompleted
        · simpa [record, HttpEvent.request?] using h.numbered
    | waiting _ hwaiting' => cases hwaiting.symm.trans hwaiting'
    | writing _ _ _ hwriting' => cases hwriting.symm.trans hwriting'
    | closed hclosed => cases hclosed.symm.trans hskip.2

theorem order_reply (h : OrderInv s) (id : Nat) (response : HttpResponse) :
    OrderInv (s.reply id response) := by
  unfold reply
  split_ifs with hskip
  · exact h
  · push Not at hskip
    obtain ⟨hopen, hwaits, rfl⟩ := hskip
    cases h.phase with
    | between _ hwaiting => exact absurd hwaiting hwaits
    | writing _ hwaiting => exact absurd hwaiting hwaits
    | closed hclosed => exact absurd hclosed hopen
    | waiting hclosed hwaiting hreading hwriting hrequests hanswered =>
        dsimp only
        split_ifs with hserver
        · -- the response is not written any more, and the request stays without one
          have hsame : close { s with waiting := false } = s.close := by
            unfold close
            rw [if_neg hopen, if_neg hopen]
            rfl
          rw [hsame]
          exact order_close h
        · refine ⟨.writing hclosed rfl hreading rfl ?_ ?_, ?_, reads_append h.reads fun h => by
            cases h⟩
          · simpa [record, HttpEvent.request?, HttpEvent.written?] using hrequests
          · have : answered s.trace ++ [s.requestId] = requests s.trace := by
              rw [hanswered, hrequests]
            simpa [record, HttpEvent.request?, HttpEvent.writing?] using this
          · simpa [record, HttpEvent.request?] using h.numbered

theorem order_begin (h : OrderInv s) (hclosed : s.closed = false) (hwaiting : s.waiting = false)
    (hwriting : s.writing = none) (hreading : s.reading = false) : OrderInv s.beginRequest := by
  cases h.phase with
  | between _ _ _ hanswered hcompleted =>
      refine ⟨.waiting hclosed rfl hreading hwriting ?_ ?_, ?_, reads_append h.reads fun h => by
        cases h⟩
      · simpa [beginRequest, record, HttpEvent.request?, HttpEvent.written?] using hcompleted.symm
      · simpa [beginRequest, record, HttpEvent.writing?, HttpEvent.written?] using
          hanswered.trans hcompleted.symm
      · have := h.numbered
        simp [beginRequest, record, HttpEvent.request?, this, List.range'_1_concat]
        omega
  | waiting _ hwaiting' => cases hwaiting.symm.trans hwaiting'
  | writing _ _ _ hwriting' => cases hwriting.symm.trans hwriting'
  | closed hclosed' => cases hclosed.symm.trans hclosed'

theorem order_fail (h : OrderInv s) (hclosed : s.closed = false) (hwaiting : s.waiting = false)
    (hwriting : s.writing = none) (hreading : s.reading = false) (status : Nat) :
    OrderInv (s.fail status) := by
  have hbegin : OrderInv (beginRequest { s with keepAlive := false }) :=
    order_begin ⟨h.phase, h.numbered, h.reads⟩ hclosed hwaiting hwriting hreading
  exact order_reply hbegin _ _

theorem order_callback (h : OrderInv s) (id : Nat) (response : HttpResponse) :
    OrderInv (s.callback id response) := by
  have hrecord : OrderInv (s.record (.replied id response)) :=
    order_record h rfl rfl rfl HttpEvent.noConfusion
  unfold callback
  dsimp only
  split_ifs
  · exact hrecord
  · exact ⟨hrecord.phase, hrecord.numbered, hrecord.reads⟩
  · exact ⟨hrecord.phase, hrecord.numbered, hrecord.reads⟩

theorem order_submit (h : OrderInv s) (id : Nat) (run : HandlerRun) :
    OrderInv (s.submit id run) := by
  have hreplies : OrderInv (run.replies.foldl (fun s response => s.callback id response) s) :=
    List.foldlRecOn (motive := OrderInv) run.replies _ h
      fun _ hs response _ => order_callback hs id response
  unfold submit
  generalize run.replies.foldl (fun s response => s.callback id response) s = s' at hreplies
  have hlast : OrderInv { s' with keepAlive := false } :=
    ⟨hreplies.phase, hreplies.numbered, hreplies.reads⟩
  cases run.ending with
  | accepted => exact hreplies
  | refused => exact order_reply hlast id serverBusy
  | threw => exact order_reply hlast id requestFailed

theorem order_onRequest (h : OrderInv s) (hclosed : s.closed = false) (hwaiting : s.waiting = false)
    (hwriting : s.writing = none) (hreading : s.reading = false) (request : ParsedRequest)
    (run : HandlerRun) : OrderInv (s.onRequest request run) := by
  have hread : OrderInv (s.parsed request) := ⟨h.phase, h.numbered, h.reads⟩
  unfold onRequest
  dsimp only
  split_ifs
  · exact order_fail hread hclosed hwaiting hwriting hreading 400
  · exact order_close hread
  · have hbegin := order_begin hread hclosed hwaiting hwriting hreading
    have hawait : OrderInv (s.parsed request).beginRequest.await :=
      ⟨hbegin.phase, hbegin.numbered, hbegin.reads⟩
    exact order_submit hawait _ run

/-- The handler of a read runs between two requests, or after the close. -/
theorem order_onRead (h : OrderInv s) (hreading : s.reading = true) (outcome : ReadOutcome) :
    OrderInv (s.onRead outcome) := by
  unfold onRead
  dsimp only
  split_ifs with hskip
  · -- the read ended after the close: only its flag changes
    cases h.phase with
    | between hclosed => exact absurd hskip (hclosed ▸ Bool.false_ne_true)
    | waiting hclosed => exact absurd hskip (hclosed ▸ Bool.false_ne_true)
    | writing hclosed => exact absurd hskip (hclosed ▸ Bool.false_ne_true)
    | closed h₁ h₂ h₃ h₄ h₅ => exact ⟨.closed h₁ h₂ h₃ h₄ h₅, h.numbered, h.reads⟩
  · cases h.phase with
    | waiting _ _ hreading' => cases hreading.symm.trans hreading'
    | writing _ _ hreading' => cases hreading.symm.trans hreading'
    | closed hclosed => exact absurd hclosed hskip
    | between hclosed hwaiting hwriting hanswered hcompleted =>
        have hidle : OrderInv { s with reading := false } :=
          ⟨.between hclosed hwaiting hwriting hanswered hcompleted, h.numbered, h.reads⟩
        cases outcome with
        | headerLimit => exact order_fail hidle hclosed hwaiting hwriting rfl 431
        | bodyLimit => exact order_fail hidle hclosed hwaiting hwriting rfl 413
        | ended => exact order_close hidle
        | malformed => exact order_fail hidle hclosed hwaiting hwriting rfl 400
        | request request run =>
            exact order_onRequest hidle hclosed hwaiting hwriting rfl request run

theorem order_onTimer (h : OrderInv s) (id : Nat) : OrderInv (s.onTimer id) := by
  unfold onTimer
  dsimp only
  split_ifs
  · have hlast : OrderInv { s with timers := s.timers.erase id, keepAlive := false } :=
      ⟨h.phase, h.numbered, h.reads⟩
    exact order_reply hlast id requestTimeout
  · exact ⟨h.phase, h.numbered, h.reads⟩

theorem order_onWritten (h : OrderInv s) {id : Nat} (hwriting : s.writing = some id) (ok : Bool) :
    OrderInv (s.onWritten id ok) := by
  unfold onWritten
  cases ok with
  | false =>
      -- the response was not written: the session is closed
      show OrderInv (close { s with writing := none })
      cases h.phase with
      | between _ _ hwriting' => cases hwriting.symm.trans hwriting'
      | waiting _ _ _ hwriting' => cases hwriting.symm.trans hwriting'
      | writing hclosed _ _ _ hrequests hanswered =>
          refine order_closed hclosed ?_ ?_ (fun _ hid => by cases hid) h.numbered h.reads
          · exact hanswered ▸ List.prefix_rfl
          · show completed s.trace <+: answered s.trace
            rw [hanswered, hrequests]
            exact List.prefix_append _ _
      | closed h₁ h₂ h₃ h₄ _ =>
          have hidle : ∀ id, (none : Option Nat) = some id →
              answered s.trace = completed s.trace ++ [id] := fun _ hid => by cases hid
          exact order_close ⟨.closed h₁ h₂ h₃ h₄ hidle, h.numbered, h.reads⟩
  | true =>
      have hrecord : OrderInv (record { s with writing := none } (.written id)) := by
        refine ⟨?_, ?_, reads_append h.reads fun h => by cases h⟩
        · cases h.phase with
          | between _ _ hwriting' => cases hwriting.symm.trans hwriting'
          | waiting _ _ _ hwriting' => cases hwriting.symm.trans hwriting'
          | writing hclosed hwaiting _ hwriting' hrequests hanswered =>
              obtain rfl := Option.some.inj (hwriting.symm.trans hwriting')
              refine .between hclosed hwaiting rfl ?_ ?_
              · simpa [record, HttpEvent.request?, HttpEvent.writing?] using hanswered
              · simpa [record, HttpEvent.request?, HttpEvent.written?] using hrequests.symm
          | closed h₁ h₂ h₃ h₄ h₅ =>
              refine .closed h₁ h₂ ?_ ?_ fun _ hid => by cases hid
              · simpa [record, HttpEvent.request?, HttpEvent.writing?] using h₃
              · have := h₅ id hwriting
                simp [record, HttpEvent.written?, HttpEvent.writing?, this]
        · have := h.numbered
          simpa [record, HttpEvent.request?] using this
      dsimp only
      rw [if_pos rfl]
      by_cases hend : s.keepAlive = false ∨ s.closed = true
      · rw [if_pos (.inr hend)]
        exact order_close hrecord
      · rw [if_neg fun h => hend (h.resolve_left fun h => by cases h)]
        refine order_read hrecord ?_ rfl
        cases h.phase with
        | between _ hwaiting => exact hwaiting
        | waiting _ _ _ hwriting' => cases hwriting.symm.trans hwriting'
        | writing _ hwaiting => exact hwaiting
        | closed _ hwaiting => exact hwaiting

end Order

/-! ## Origin -/

section Origin

variable {s : HttpSession} {id : Nat} {response : HttpResponse}

/-- A response is the server's own, or was given first through the request's own callback. -/
def Answers (trace : List HttpEvent) (id : Nat) (response : HttpResponse) : Prop :=
  Generated response ∨ (repliesTo id trace).head? = some response

theorem Answers.append {trace : List HttpEvent} (h : Answers trace id response) (e : HttpEvent) :
    Answers (trace ++ [e]) id response :=
  h.imp_right first_append

/-- An event that is neither a reply nor a response. -/
theorem origin_record (h : OriginInv s) {e : HttpEvent} (hreplied : ∀ id, e.replied? id = none)
    (hwriting : e.writing? = none) : OriginInv (s.record e) where
  delivered := by
    intro id
    show s.delivered id = true ↔ repliesTo id (s.trace ++ [e]) ≠ []
    rw [repliesTo_append, hreplied, h.delivered]
    simp
  posted := fun p hp => first_append (h.posted p hp)
  origin := by
    intro p hp
    change p ∈ responses (s.trace ++ [e]) at hp
    rw [responses_append, hwriting] at hp
    obtain ⟨response, head, version, keepAlive, hmessage, hanswers⟩ :=
      h.origin p (by simpa using hp)
    exact ⟨response, head, version, keepAlive, hmessage, hanswers.imp_right first_append⟩

theorem origin_close (h : OriginInv s) : OriginInv s.close := by
  unfold close
  split_ifs
  · exact h
  · have hrecord : OriginInv (s.record .closed) := origin_record h (fun _ => rfl) rfl
    exact ⟨hrecord.delivered, hrecord.posted, hrecord.origin⟩

theorem origin_read (h : OriginInv s) : OriginInv s.read := by
  unfold read
  split_ifs
  · exact h
  · have hrecord : OriginInv (s.record .readStarted) := origin_record h (fun _ => rfl) rfl
    exact ⟨hrecord.delivered, hrecord.posted, hrecord.origin⟩

theorem origin_reply (h : OriginInv s) (hanswers : Answers s.trace id response) :
    OriginInv (s.reply id response) := by
  unfold reply
  dsimp only
  split_ifs
  · exact h
  · exact origin_close ⟨h.delivered, h.posted, h.origin⟩
  · refine ⟨?_, fun p hp => first_append (h.posted p hp), ?_⟩
    · intro id'
      show s.delivered id' = true ↔ repliesTo id' (s.trace ++ [_]) ≠ []
      rw [repliesTo_append, h.delivered]
      simp [HttpEvent.replied?]
    · intro p hp
      change p ∈ responses (s.trace ++ [_]) at hp
      rw [responses_append, List.mem_append] at hp
      rcases hp with hp | hp
      · obtain ⟨response', head, version, keepAlive, hmessage, hanswers'⟩ := h.origin p hp
        exact ⟨response', head, version, keepAlive, hmessage, hanswers'.imp_right first_append⟩
      · obtain rfl : p = (id, response.message s.head s.version s.keepAlive) := by
          simpa [HttpEvent.writing?] using hp
        exact ⟨response, s.head, s.version, s.keepAlive, rfl, hanswers.append _⟩

theorem origin_begin (h : OriginInv s) : OriginInv s.beginRequest := by
  have hrecord : OriginInv (s.record (.request (s.requestId + 1))) :=
    origin_record h (fun _ => rfl) rfl
  exact ⟨hrecord.delivered, hrecord.posted, hrecord.origin⟩

theorem origin_fail (h : OriginInv s) {status : Nat} (hstatus : status ∈ [400, 413, 431]) :
    OriginInv (s.fail status) := by
  have hbegin : OriginInv (beginRequest { s with keepAlive := false }) :=
    origin_begin ⟨h.delivered, h.posted, h.origin⟩
  exact origin_reply hbegin (.inl (.inl ⟨status, hstatus, rfl⟩))

/-- The first call of a callback posts its reply; the others have no effect. -/
theorem origin_callback (h : OriginInv s) (id : Nat) (response : HttpResponse) :
    OriginInv (s.callback id response) := by
  have hreplies : ∀ id', repliesTo id' (s.trace ++ [.replied id response]) =
      repliesTo id' s.trace ++ if id = id' then [response] else [] := by
    intro id'
    rw [repliesTo_append]
    by_cases heq : id = id'
    · simp [HttpEvent.replied?, heq]
    · simp [HttpEvent.replied?, heq]
  have horigin : ∀ p ∈ responses (s.trace ++ [.replied id response]),
      ∃ response' : HttpResponse, ∃ head version keepAlive,
        p.2 = response'.message head version keepAlive ∧
          Answers (s.trace ++ [.replied id response]) p.1 response' := by
    intro p hp
    rw [responses_append] at hp
    obtain ⟨response', head, version, keepAlive, hmessage, hanswers⟩ :=
      h.origin p (by simpa [HttpEvent.writing?] using hp)
    exact ⟨response', head, version, keepAlive, hmessage, hanswers.imp_right first_append⟩
  have hposted : ∀ p ∈ s.posted,
      (repliesTo p.1 (s.trace ++ [.replied id response])).head? = some p.2 :=
    fun p hp => first_append (h.posted p hp)
  unfold callback record
  dsimp only
  split_ifs with hdelivered hbridge
  · -- a reply was delivered before, so this one is not the first
    refine ⟨fun id' => ?_, hposted, horigin⟩
    show s.delivered id' = true ↔ repliesTo id' (s.trace ++ [.replied id response]) ≠ []
    rw [hreplies]
    split_ifs with heq
    · exact iff_of_true (heq ▸ hdelivered) (by simp)
    · rw [List.append_nil]
      exact h.delivered id'
  all_goals
    -- the first reply; it is posted while the bridge is there
    have hnone : repliesTo id s.trace = [] := by
      by_contra hne
      exact hdelivered ((h.delivered id).mpr hne)
    have hflags : ∀ id', Function.update s.delivered id true id' = true ↔
        repliesTo id' (s.trace ++ [.replied id response]) ≠ [] := by
      intro id'
      rw [hreplies, Function.update_apply]
      by_cases heq : id' = id
      · simp [heq]
      · rw [if_neg heq, if_neg (Ne.symm heq), List.append_nil]
        exact h.delivered id'
  · refine ⟨hflags, ?_, horigin⟩
    show ∀ p ∈ s.posted ++ [(id, response)], _
    rw [List.forall_mem_append, List.forall_mem_singleton]
    refine ⟨hposted, ?_⟩
    show (repliesTo id (s.trace ++ [_])).head? = some response
    rw [hreplies, hnone, if_pos rfl]
    rfl
  · exact ⟨hflags, hposted, horigin⟩

theorem origin_submit (h : OriginInv s) (id : Nat) (run : HandlerRun) :
    OriginInv (s.submit id run) := by
  have hreplies : OriginInv (run.replies.foldl (fun s response => s.callback id response) s) :=
    List.foldlRecOn (motive := OriginInv) run.replies _ h
      fun _ hs response _ => origin_callback hs id response
  unfold submit
  generalize run.replies.foldl (fun s response => s.callback id response) s = s' at hreplies
  have hlast : OriginInv { s' with keepAlive := false } :=
    ⟨hreplies.delivered, hreplies.posted, hreplies.origin⟩
  cases run.ending with
  | accepted => exact hreplies
  | refused => exact origin_reply hlast (.inl (.inr (.inr (.inl rfl))))
  | threw => exact origin_reply hlast (.inl (.inr (.inl rfl)))

theorem origin_onRead (h : OriginInv s) (outcome : ReadOutcome) : OriginInv (s.onRead outcome) := by
  have hread : OriginInv { s with reading := false } := ⟨h.delivered, h.posted, h.origin⟩
  unfold onRead
  dsimp only
  split_ifs
  · exact hread
  · cases outcome with
    | headerLimit => exact origin_fail hread (by decide)
    | bodyLimit => exact origin_fail hread (by decide)
    | ended => exact origin_close hread
    | malformed => exact origin_fail hread (by decide)
    | request request run =>
        have hparsed : OriginInv (parsed request { s with reading := false }) :=
          ⟨h.delivered, h.posted, h.origin⟩
        dsimp only
        unfold onRequest
        dsimp only
        split_ifs
        · exact origin_fail hparsed (by decide)
        · exact origin_close hparsed
        · have hbegin := origin_begin hparsed
          have hawait : OriginInv
              (beginRequest (parsed request { s with reading := false })).await :=
            ⟨hbegin.delivered, hbegin.posted, hbegin.origin⟩
          exact origin_submit hawait _ run

theorem origin_onTimer (h : OriginInv s) (id : Nat) : OriginInv (s.onTimer id) := by
  unfold onTimer
  dsimp only
  split_ifs
  · have hlast : OriginInv { s with timers := s.timers.erase id, keepAlive := false } :=
      ⟨h.delivered, h.posted, h.origin⟩
    exact origin_reply hlast (.inl (.inr (.inr (.inr rfl))))
  · exact ⟨h.delivered, h.posted, h.origin⟩

theorem origin_onWritten (h : OriginInv s) (id : Nat) (ok : Bool) :
    OriginInv (s.onWritten id ok) := by
  have hdone : OriginInv { s with writing := none } := ⟨h.delivered, h.posted, h.origin⟩
  have hrecord : OriginInv (if ok then record { s with writing := none } (.written id)
      else { s with writing := none }) := by
    split_ifs
    · exact origin_record hdone (fun _ => rfl) rfl
    · exact hdone
  unfold onWritten
  dsimp only
  generalize (if ok = true then record { s with writing := none } (.written id)
      else { s with writing := none }) = s' at hrecord ⊢
  split_ifs
  · exact origin_close hrecord
  · exact origin_read hrecord

end Origin

/-! ## Runs -/

theorem inv_step {s s' : HttpSession} (h : Step s s') (horder : OrderInv s)
    (horigin : OriginInv s) : OrderInv s' ∧ OriginInv s' := by
  cases h with
  | read outcome hreading =>
      exact ⟨order_onRead horder hreading outcome, origin_onRead horigin outcome⟩
  | timer id => exact ⟨order_onTimer horder id, origin_onTimer horigin id⟩
  | posted before id response after hposted =>
      have hfirst : (repliesTo id s.trace).head? = some response := by
        refine horigin.posted (id, response) ?_
        rw [hposted]
        exact List.mem_append_right _ List.mem_cons_self
      have hrest : ∀ p ∈ before ++ after, (repliesTo p.1 s.trace).head? = some p.2 := by
        intro p hp
        refine horigin.posted p ?_
        rw [hposted, List.mem_append, List.mem_cons]
        exact (List.mem_append.mp hp).imp_right .inr
      have horder' : OrderInv { s with posted := before ++ after } :=
        ⟨horder.phase, horder.numbered, horder.reads⟩
      have horigin' : OriginInv { s with posted := before ++ after } :=
        ⟨horigin.delivered, hrest, horigin.origin⟩
      exact ⟨order_reply horder' id response, origin_reply horigin' (.inr hfirst)⟩
  | written id ok hwriting =>
      exact ⟨order_onWritten horder hwriting ok, origin_onWritten horigin id ok⟩
  | callback id response =>
      exact ⟨order_callback horder id response, origin_callback horigin id response⟩
  | stop =>
      have horder' : OrderInv { s with bridge := false } :=
        ⟨horder.phase, horder.numbered, horder.reads⟩
      have horigin' : OriginInv { s with bridge := false } :=
        ⟨horigin.delivered, horigin.posted, horigin.origin⟩
      exact ⟨order_close horder', origin_close horigin'⟩
  | serverGone =>
      exact ⟨⟨horder.phase, horder.numbered, horder.reads⟩,
        ⟨horigin.delivered, horigin.posted, horigin.origin⟩⟩

theorem inv_accepted : OrderInv accepted ∧ OriginInv accepted := by
  have hreads : ∀ before after, ([] : List HttpEvent) = before ++ .readStarted :: after →
      completed before = requests before := by
    intro before after h
    cases before <;> cases h
  have horder : OrderInv {} := ⟨.between rfl rfl rfl rfl rfl, rfl, hreads⟩
  have horigin : OriginInv {} :=
    ⟨fun _ => by simp [repliesTo], (fun _ h => by cases h), (fun _ h => by cases h)⟩
  exact ⟨order_read horder rfl rfl, origin_read horigin⟩

theorem inv_run {s : HttpSession} (h : Run accepted s) : OrderInv s ∧ OriginInv s := by
  induction h with
  | refl => exact inv_accepted
  | tail _ hstep ih => exact inv_step hstep ih.1 ih.2

/-- The requests that have a response are the first ones. -/
theorem Phase.answered_prefix {closed waiting reading : Bool} {writing : Option Nat} {id : Nat}
    {trace : List HttpEvent} (h : Phase closed waiting reading writing id trace) :
    answered trace <+: requests trace := by
  cases h with
  | between _ _ _ hanswered => exact hanswered ▸ List.prefix_rfl
  | waiting _ _ _ _ hrequests hanswered =>
      rw [hanswered, hrequests]
      exact List.prefix_append _ _
  | writing _ _ _ _ _ hanswered => exact hanswered ▸ List.prefix_rfl
  | closed _ _ hanswered => exact hanswered

/-- **Requests and responses match.** The responses go to the first requests, one each and in order;
each is the server's own or the first reply through the callback of its request; and no read starts
before all requests so far have their response written. -/
theorem responses_match {s : HttpSession} (hrun : Run accepted s) :
    requests s.trace = List.range' 1 s.requestId ∧ answered s.trace <+: requests s.trace ∧
      (∀ p ∈ responses s.trace, ∃ response : HttpResponse, ∃ head version keepAlive,
        p.2 = response.message head version keepAlive ∧
          (Generated response ∨ (repliesTo p.1 s.trace).head? = some response)) ∧
      ∀ before after, s.trace = before ++ .readStarted :: after →
        completed before = requests before := by
  obtain ⟨horder, horigin⟩ := inv_run hrun
  exact ⟨horder.numbered, horder.phase.answered_prefix, horigin.origin, horder.reads⟩

/-- A request that the application takes. -/
def taken : ReadOutcome :=
  .request ⟨⟨bytes "GET", bytes "/api/data?dev=temperature"⟩, 11, true⟩ ⟨[], .accepted⟩

/-- Two requests on one connection: a second reply to the first comes while the second waits, and is
not taken for its response. -/
def reused : HttpSession :=
  let s := (accepted.onRead taken).callback 1 (.json 200 [])
  let s := { s with posted := [] }.reply 1 (.json 200 [])
  let s := (s.onWritten 1 true).onRead taken
  (s.callback 1 (.json 500 [])).onTimer 2

theorem responses_match_reused : Run accepted reused ∧
    answered reused.trace = [1, 2] ∧ answered reused.trace <+: requests reused.trace := by
  have hrun : Run accepted reused := by
    refine .head (.read _ taken rfl) ?_
    refine .head (.callback _ 1 (.json 200 []) (by decide)) ?_
    refine .head (.posted _ [] 1 (.json 200 []) [] rfl) ?_
    refine .head (.written _ 1 true rfl) ?_
    refine .head (.read _ taken rfl) ?_
    refine .head (.callback _ 1 (.json 500 []) (by decide)) ?_
    exact .single (.timer _ 2 (by decide))
  exact ⟨hrun, by decide, (responses_match hrun).2.1⟩

end HttpSession

end EdgeGateway
