import WebLib.HttpRouter

/-! # At most one response

    The catch clause of `handle_request` answers with a 500 and does not know
    what is on the socket already.  With handlers that call `respond` at most
    once, the block before it puts bytes of at most one response there; a second
    one follows exactly when a `std::exception` leaves the block after bytes were
    accepted and the socket still takes some. -/

namespace WebLib.HttpRouter

open WebLib ByteString HttpBinder

variable {Handler Filter : Type} (platform : Platform) (user : UserCode Handler Filter)

/-- The bytes the socket accepted. -/
def bytes (log : List Written) : Str := log.flatMap Written.accepted

/-- What was accepted is the beginning of one serialised response; the other
    calls of `respond` put nothing there. -/
def OneResponse (log : List Written) : Prop :=
  bytes log = [] ∨ ∃ before w after, ∃ resp : HttpResponse, log = before ++ w :: after
    ∧ bytes before = [] ∧ bytes after = [] ∧ w.response = resp.to_string
    ∧ bytes log <+: w.response

/-- An exception of the standard kind leaves the block after bytes were accepted,
    and the socket takes more. -/
def Interrupted (r : Run) : Prop :=
  (∃ ex, r.ending = .throws ex ∧ ex.is_std_exception = true) ∧ bytes r.log ≠ []
    ∧ TakesBytes r.rest

@[simp] theorem bytes_nil : bytes [] = [] := rfl

@[simp] theorem bytes_cons (w : Written) (log : List Written) :
    bytes (w :: log) = w.accepted ++ bytes log := rfl

@[simp] theorem bytes_append (log log' : List Written) :
    bytes (log ++ log') = bytes log ++ bytes log' := List.flatMap_append

/-! ## Each call of `respond` -/

/-- An entry of the log holds the beginning of a serialised response. -/
def Genuine (w : Written) : Prop :=
  ∃ resp : HttpResponse, w.response = resp.to_string ∧ w.accepted <+: w.response

theorem genuine (resp : HttpResponse) (script : List SendOutcome) :
    Genuine ⟨resp.to_string, (respond resp script).bytes⟩ :=
  ⟨resp, rfl, respond_prefix resp script⟩

theorem respond_once_genuine (resp : HttpResponse) (script : List SendOutcome) :
    ∀ w ∈ (respond_once resp script).log, Genuine w := by
  intro w hw
  rw [List.mem_singleton.mp hw]
  exact genuine resp script

theorem run_genuine (code : HandlerCode) :
    ∀ script, ∀ w ∈ (code.run script).log, Genuine w := by
  induction code with
  | done => intro script w hw; cases hw
  | throw e => intro script w hw; cases hw
  | respond resp k ih =>
      intro script w hw
      rw [HandlerCode.run] at hw
      simp only at hw
      split at hw
      · rw [List.mem_singleton.mp hw]
        exact genuine resp script
      · rcases List.mem_cons.mp hw with rfl | hw
        · exact genuine resp script
        · exact ih none _ w hw
      · rcases List.mem_cons.mp hw with rfl | hw
        · exact genuine resp script
        · exact ih (some .writing_socket_error) _ w hw

/-- A handler that may respond `n` times leaves at most `n` entries. -/
theorem run_log_length (code : HandlerCode) :
    ∀ {n : Nat}, code.AtMost n → ∀ script, (code.run script).log.length ≤ n := by
  induction code with
  | done => intro n _ script; exact Nat.zero_le n
  | throw e => intro n _ script; exact Nat.zero_le n
  | respond resp k ih =>
      intro n hn script
      cases n with
      | zero => exact hn.elim
      | succ n =>
          rw [HandlerCode.run]
          simp only
          split
          · exact Nat.succ_le_succ (Nat.zero_le n)
          · exact Nat.succ_le_succ (ih none (hn none) _)
          · exact Nat.succ_le_succ (ih _ (hn _) _)

/-! ## The `try` block -/

theorem of_fault_log (f : Fault) (script : List SendOutcome) : (Run.of_fault f script).log = [] := by
  cases f <;> rfl

/-- The block makes genuine calls, one at most. -/
theorem attempt_log (hone : ∀ h req, (user.handler h req).AtMost 1)
    (m_handles : Handles Handler Filter) (path raw_http : Str) (request_type : RequestType)
    (script : List SendOutcome) :
    (∀ w ∈ (attempt platform user m_handles path raw_http request_type script).log, Genuine w)
      ∧ (attempt platform user m_handles path raw_http request_type script).log.length ≤ 1 := by
  have hcases := attempt_cases platform user m_handles path raw_http request_type script
  generalize attempt platform user m_handles path raw_http request_type script = r at hcases ⊢
  cases hcases with
  | lookup_fault hf => simp [of_fault_log]
  | no_route hf => exact ⟨respond_once_genuine _ _, Nat.le_refl 1⟩
  | bad_request hf hc => simp [of_fault_log]
  | filter_throws hf hc hp => simp
  | refused hf hc hp => exact ⟨respond_once_genuine _ _, Nat.le_refl 1⟩
  | no_handler hf hc hp hh => simp
  | handled hf hc hp hh => exact ⟨run_genuine _ script, run_log_length _ (hone _ _) script⟩

/-! ## The catch clause -/

/-- One call of `respond` is one response. -/
theorem one_response_of_length {log : List Written} (hg : ∀ w ∈ log, Genuine w)
    (hlen : log.length ≤ 1) : OneResponse log := by
  cases log with
  | nil => exact Or.inl rfl
  | cons w log =>
      obtain rfl : log = [] := List.length_eq_zero_iff.mp (by simpa using hlen)
      obtain ⟨resp, hresp, hpre⟩ := hg w List.mem_cons_self
      exact Or.inr ⟨[], w, [], resp, rfl, rfl, rfl, hresp, by simpa using hpre⟩

/-- Bytes of a page after bytes of a first call are bytes of two responses. -/
theorem not_one_response {log : List Written} {page : Written} (hlen : log.length ≤ 1)
    (hlog : bytes log ≠ []) (hpage : page.accepted ≠ []) : ¬ OneResponse (log ++ [page]) := by
  obtain ⟨w, rfl⟩ : ∃ w, log = [w] := by
    cases log with
    | nil => exact absurd rfl hlog
    | cons w log =>
        obtain rfl : log = [] := List.length_eq_zero_iff.mp (by simpa using hlen)
        exact ⟨w, rfl⟩
  rintro (hnil | ⟨before, x, after, resp, heq, hb, ha, -⟩)
  · simp [hpage] at hnil
  · rw [bytes_cons, bytes_nil, List.append_nil] at hlog
    cases before with
    | nil =>
        -- then the page is among the calls that put nothing there
        obtain ⟨-, rfl⟩ := List.cons.inj heq
        simp [hpage] at ha
    | cons y before =>
        obtain ⟨rfl, -⟩ := List.cons.inj heq
        simp [hlog] at hb

/-- A page after calls that put nothing there is the one response. -/
theorem one_response_after {log : List Written} {page : Written} (hlog : bytes log = [])
    (hpage : Genuine page) : OneResponse (log ++ [page]) := by
  obtain ⟨resp, hresp, hpre⟩ := hpage
  exact Or.inr ⟨log, page, [], resp, rfl, hlog, rfl, hresp, by simpa [hlog] using hpre⟩

/-- A page that puts nothing there changes nothing. -/
theorem one_response_before {log : List Written} {page : Written} (hlog : OneResponse log)
    (hpage : page.accepted = []) : OneResponse (log ++ [page]) := by
  rcases hlog with hnil | ⟨before, w, after, resp, rfl, hb, ha, hresp, hpre⟩
  · exact Or.inl (by simp [hnil, hpage])
  · refine Or.inr ⟨before, w, after ++ [page], resp, by simp, hb, by simp [ha, hpage], hresp, ?_⟩
    simpa [hpage] using hpre

/-- The 500 behind an interrupted response. -/
theorem two_responses (hone : ∀ h req, (user.handler h req).AtMost 1)
    (m_handles : Handles Handler Filter) (path raw_http : Str) (request_type : RequestType)
    (script : List SendOutcome)
    (hint : Interrupted (attempt platform user m_handles path raw_http request_type script).toRun) :
    ¬ OneResponse
      (handle_request platform user m_handles path raw_http request_type script).log := by
  have hlen := (attempt_log platform user hone m_handles path raw_http request_type script).2
  rw [handle_request]
  generalize attempt platform user m_handles path raw_http request_type script = r at hint hlen ⊢
  obtain ⟨⟨ex, hend, hstd⟩, hlog, htake⟩ := hint
  simp only [hend, hstd, if_true, respond_once]
  exact not_one_response hlen hlog ((respond_bytes_iff _ _).mpr htake)

/-- Every handler answers with its name and then throws an exception of its own. -/
def late_user : UserCode Nat Nat where
  filter _ _ := .ok true
  handler _ _ := .respond ({} : HttpResponse) fun _ => .throw (.user_exception (str "late"))

/-- Platform and table of the two runs below. -/
def plain_platform : Platform := ⟨fun _ message => message, fun _ => []⟩

def late_route : Handles Nat Nat := (register_handler ∅ (str "/a") (some 0) [.GET]).1

def late_raw : Str := str "GET /a HTTP/1.1\r\nHost: w\r\n\r\n"

theorem late_at_most_one (h : Nat) (req : HttpRequest) : (late_user.handler h req).AtMost 1 :=
  fun _ => trivial

end WebLib.HttpRouter
