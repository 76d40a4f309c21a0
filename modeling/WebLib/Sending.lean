import WebLib.Responses

/-! # A call, one system call at a time

    A handler's call runs on a script of what the kernel will answer.  A worker
    has no such script: each answer comes when it comes.

    What a call does on its script is `Sequential`: it is over at once, or it is
    one `respond`, or it is such a run and behind its end another one.  A
    handler's program is a chain of these, and in `process_request` the 500 comes
    behind the block.  So what a call did so far does not depend on the answers
    still to come. -/

namespace WebLib

open ByteString Utils UnorderedMap HttpBinder

/-- The run, with more outcomes behind those it left. -/
def Run.feed (r : Run) (more : List SendOutcome) : Run := { r with rest := r.rest ++ more }

/-- The run, and what its end calls for on the outcomes it left. -/
def Run.andThen (r : Run) (next : Ending → Option (List SendOutcome → Run)) : Run :=
  match next r.ending with
  | none => r
  | some f => { f r.rest with log := r.log ++ (f r.rest).log }

namespace Sending

open HttpRouter

/-- What code made of `respond` can do on its outcomes. -/
inductive Sequential : (List SendOutcome → Run) → Prop where
  | ends (e : Ending) : e ≠ .running → Sequential fun script => ⟨[], e, script⟩
  | respond (resp : HttpResponse) : Sequential (respond_once resp)
  | andThen {f : List SendOutcome → Run} {next : Ending → Option (List SendOutcome → Run)} :
      Sequential f → next .running = none → (∀ e g, next e = some g → Sequential g) →
      Sequential fun script => (f script).andThen next

section

variable {r : Run} {next : Ending → Option (List SendOutcome → Run)}
  {f : List SendOutcome → Run}

theorem andThen_none (h : next r.ending = none) : r.andThen next = r := by
  rw [Run.andThen, h]

theorem andThen_some (h : next r.ending = some f) :
    r.andThen next = { f r.rest with log := r.log ++ (f r.rest).log } := by
  rw [Run.andThen, h]

theorem bytes_prefix_andThen : bytes r.log <+: bytes (r.andThen next).log := by
  cases h : next r.ending with
  | none => rw [andThen_none h]
  | some f =>
      rw [andThen_some h, bytes_append]
      exact List.prefix_append _ _

theorem andThen_feed_none (more : List SendOutcome) (h : next r.ending = none) :
    (r.feed more).andThen next = (r.andThen next).feed more := by
  rw [andThen_none h, andThen_none (r := r.feed more) h]

end

/-! ## A handler's program -/

/-- What a program does when its `respond` is over. -/
def follow (k : Option Thrown → HandlerCode) : Ending → Option (List SendOutcome → Run)
  | .returned => some (k none).run
  | .throws _ => some (k (some .writing_socket_error)).run
  | _ => none

theorem run_respond (resp : HttpResponse) (k : Option Thrown → HandlerCode)
    (script : List SendOutcome) :
    (HandlerCode.respond resp k).run script = (respond_once resp script).andThen (follow k) := by
  rw [HandlerCode.run, respond_once, Run.andThen]
  cases (respond resp script).ending <;> rfl

theorem sequential_run (code : HandlerCode) : Sequential code.run := by
  induction code with
  | done => exact .ends .returned (by simp)
  | throw e => exact .ends (.throws e) (by simp)
  | respond resp k ih =>
      have heq : (HandlerCode.respond resp k).run
          = fun script => (respond_once resp script).andThen (follow k) :=
        funext (run_respond resp k)
      rw [heq]
      refine .andThen (.respond resp) rfl ?_
      intro e g hg
      cases e with
      | returned => exact Option.some.inj hg ▸ ih none
      | throws ex => exact Option.some.inj hg ▸ ih (some .writing_socket_error)
      | undefined => cases hg
      | running => cases hg

/-! ## The router -/

variable {Handler Filter : Type} (platform : Platform) (user : UserCode Handler Filter)

theorem sequential_of_fault (f : Fault) : Sequential (Run.of_fault f) := by
  cases f with
  | throws e => exact .ends (.throws (.library e)) (by simp)
  | undefined => exact .ends .undefined (by simp)

theorem sequential_attempt (m_handles : Handles Handler Filter) (path raw_http : Str)
    (request_type : RequestType) : Sequential fun script =>
      (attempt platform user m_handles path raw_http request_type script).toRun := by
  simp only [attempt]
  cases find_handle m_handles path request_type with
  | error f => exact sequential_of_fault f
  | ok found =>
      cases found with
      | none => exact .respond _
      | some handle =>
          simp only [dispatch]
          cases HttpRequest.construct raw_http handle.m_path handle.m_parameters with
          | error f => exact sequential_of_fault f
          | ok req =>
              simp only
              cases pass_middlewares user req handle.m_filters with
              | mk events verdict =>
                  cases verdict with
                  | error e => exact .ends (.throws e) (by simp)
                  | ok passed =>
                      cases passed with
                      | false => exact .respond _
                      | true =>
                          cases handle.m_handle with
                          | none => exact .ends (.throws .handle_not_set) (by simp)
                          | some h => exact sequential_run _

/-- The page behind an exception that is caught. -/
def page : Ending → Option (List SendOutcome → Run)
  | .throws ex =>
      if ex.is_std_exception then some (respond_once (internal_error platform ex)) else none
  | _ => none

/-- `handle_request` is its block, and the page. -/
theorem handle_request_toRun (m_handles : Handles Handler Filter) (path raw_http : Str)
    (request_type : RequestType) (script : List SendOutcome) :
    (handle_request platform user m_handles path raw_http request_type script).toRun
      = (attempt platform user m_handles path raw_http request_type script).toRun.andThen
          (page platform) := by
  rw [handle_request]
  generalize attempt platform user m_handles path raw_http request_type script = r
  cases hend : r.ending with
  | throws ex =>
      cases hstd : ex.is_std_exception with
      | true =>
          have hpage : page platform r.toRun.ending
              = some (respond_once (internal_error platform ex)) := by
            rw [hend, page, hstd]
            rfl
          rw [andThen_some hpage]
          simp only [hstd, if_true]
      | false =>
          have hpage : page platform r.toRun.ending = none := by
            rw [hend, page, hstd]
            rfl
          rw [andThen_none hpage]
          simp only [hstd, Bool.false_eq_true, if_false]
  | returned => rw [andThen_none (by rw [hend]; rfl)]
  | undefined => rw [andThen_none (by rw [hend]; rfl)]
  | running => rw [andThen_none (by rw [hend]; rfl)]

theorem sequential_handle_request (m_handles : Handles Handler Filter) (path raw_http : Str)
    (request_type : RequestType) : Sequential fun script =>
      (handle_request platform user m_handles path raw_http request_type script).toRun := by
  simp only [handle_request_toRun]
  refine .andThen (sequential_attempt platform user m_handles path raw_http request_type) rfl ?_
  intro e g hg
  cases e with
  | throws ex =>
      rw [page] at hg
      split at hg
      · exact Option.some.inj hg ▸ .respond _
      · cases hg
  | returned => cases hg
  | undefined => cases hg
  | running => cases hg

theorem sequential_process_request (m_handles : Handles Handler Filter) (raw_http : Str) :
    Sequential fun script =>
      (process_request platform user m_handles raw_http script).toRun := by
  simp only [process_request]
  cases parse_request_line raw_http with
  | error f => exact sequential_of_fault f
  | ok mp => exact sequential_handle_request platform user m_handles mp.2 raw_http _

/-! ## What was decided stays -/

/-- What the outcomes so far decide stays decided: a run that ended stays as it
    is, one that did not goes on, and without any outcome nothing is accepted. -/
structure Online (f : List SendOutcome → Run) : Prop where
  start : bytes (f []).log = [] ∧ (f []).rest = []
  ended : ∀ script more, (f script).ending ≠ .running → f (script ++ more) = (f script).feed more
  grows : ∀ script more, bytes (f script).log <+: bytes (f (script ++ more)).log

/-- Nothing is sent, and the outcomes stay where they are. -/
theorem online_ends (e : Ending) : Online fun script => ⟨[], e, script⟩ where
  start := ⟨rfl, rfl⟩
  ended := fun _ _ _ => rfl
  grows := fun _ _ => List.prefix_refl _

/-- **ONE BEHIND ANOTHER**: what a run that is over calls for is run on the
    outcomes that come after it. -/
theorem Online.andThen {f : List SendOutcome → Run}
    {next : Ending → Option (List SendOutcome → Run)} (hf : Online f)
    (hrunning : next .running = none) (hnext : ∀ e g, next e = some g → Online g) :
    Online fun script => (f script).andThen next where
  start := by
    obtain ⟨hbytes, hrest⟩ := hf.start
    cases h : next (f []).ending with
    | none =>
        rw [andThen_none h]
        exact ⟨hbytes, hrest⟩
    | some g =>
        have hg := (hnext _ g h).start
        rw [andThen_some h, hrest, bytes_append, hbytes]
        exact hg
  ended := by
    intro script more hend
    cases h : next (f script).ending with
    | none =>
        rw [andThen_none h] at hend
        rw [hf.ended script more hend]
        exact andThen_feed_none more h
    | some g =>
        have hne : (f script).ending ≠ .running := by
          intro he
          rw [he, hrunning] at h
          cases h
        rw [andThen_some h] at hend
        have hg := (hnext _ g h).ended (f script).rest more hend
        have hfeed : next ((f script).feed more).ending = some g := h
        rw [hf.ended script more hne, andThen_some hfeed, andThen_some h]
        simp only [Run.feed, hg]
  grows := by
    intro script more
    by_cases he : (f script).ending = .running
    · -- the first run is not over: nothing follows it yet
      rw [andThen_none (he ▸ hrunning)]
      exact (hf.grows script more).trans bytes_prefix_andThen
    · rw [hf.ended script more he]
      cases h : next (f script).ending with
      | none =>
          rw [andThen_feed_none more h, andThen_none h]
          exact List.prefix_refl _
      | some g =>
          have hfeed : next ((f script).feed more).ending = some g := h
          rw [andThen_some h, andThen_some hfeed, bytes_append, bytes_append]
          exact (List.prefix_append_right_inj _).mpr ((hnext _ g h).grows _ more)

/-- The loop is over with the outcomes it has, or goes on with the next one. -/
theorem respond_loop_ended (response : Str) (script more : List SendOutcome) :
    ∀ k, (respond_loop response k script).ending ≠ .running →
      respond_loop response k (script ++ more) = { respond_loop response k script with
        rest := (respond_loop response k script).rest ++ more } := by
  induction script with
  | nil =>
      intro k hend
      by_cases h : k < response.length
      · rw [respond_loop_nil h] at hend
        exact absurd rfl hend
      · rw [respond_loop_done (Nat.le_of_not_lt h), respond_loop_done (Nat.le_of_not_lt h)]
  | cons outcome script ih =>
      intro k hend
      rw [List.cons_append]
      by_cases h : k < response.length
      · cases outcome with
        | accepted n =>
            rw [respond_loop_accepted h] at hend ⊢
            rw [respond_loop_accepted h, ih _ hend]
        | would_block ready =>
            cases ready with
            | false => rw [respond_loop_lost h, respond_loop_lost h]
            | true =>
                rw [respond_loop_ready h] at hend ⊢
                rw [respond_loop_ready h, ih _ hend]
        | failed => rw [respond_loop_failed h, respond_loop_failed h]
      · rw [respond_loop_done (Nat.le_of_not_lt h), respond_loop_done (Nat.le_of_not_lt h),
          List.cons_append]

theorem respond_loop_grows (response : Str) (script more : List SendOutcome) :
    ∀ k, (respond_loop response k script).bytes
      <+: (respond_loop response k (script ++ more)).bytes := by
  induction script with
  | nil =>
      intro k
      have hnil : (respond_loop response k []).bytes = [] := by
        rw [respond_loop]
        split <;> rfl
      rw [hnil]
      exact List.nil_prefix
  | cons outcome script ih =>
      intro k
      rw [List.cons_append]
      by_cases h : k < response.length
      · cases outcome with
        | accepted n =>
            rw [respond_loop_accepted h, respond_loop_accepted h]
            exact (List.prefix_append_right_inj _).mpr (ih _)
        | would_block ready =>
            cases ready with
            | false =>
                rw [respond_loop_lost h]
                exact List.nil_prefix
            | true =>
                rw [respond_loop_ready h, respond_loop_ready h]
                exact ih k
        | failed =>
            rw [respond_loop_failed h]
            exact List.nil_prefix
      · rw [respond_loop_done (Nat.le_of_not_lt h)]
        exact List.nil_prefix

theorem online_respond_once (resp : HttpResponse) : Online (respond_once resp) where
  start := by
    have hpos : 0 < resp.to_string.length := List.length_pos_iff.mpr resp.to_string_ne_nil
    have hnil : respond resp [] = ⟨[], .running, []⟩ := respond_loop_nil hpos
    rw [respond_once, hnil]
    exact ⟨rfl, rfl⟩
  ended := by
    intro script more hend
    have hne : (respond resp script).ending ≠ .running := by
      intro he
      rw [respond_once] at hend
      simp only [he] at hend
      exact hend rfl
    have hloop : respond resp (script ++ more) = { respond resp script with
        rest := (respond resp script).rest ++ more } :=
      respond_loop_ended resp.to_string script more 0 hne
    rw [respond_once, respond_once, hloop]
    rfl
  grows := by
    intro script more
    simp only [respond_once, bytes_cons, bytes_nil, List.append_nil]
    exact respond_loop_grows resp.to_string script more 0

theorem Sequential.online {f : List SendOutcome → Run} (h : Sequential f) : Online f := by
  induction h with
  | ends e hne => exact online_ends e
  | respond resp => exact online_respond_once resp
  | andThen hf hrunning hnext ihf ihnext => exact ihf.andThen hrunning ihnext

end Sending

end WebLib
