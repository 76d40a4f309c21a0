import WebLib.HttpResponse
import WebLib.TransitionSystem

/-! # Writing a response piece by piece

    The loop of `HttpResponseWriter::respond`, one round at a time: a `send` of
    what is left, and after `EAGAIN` a `poll`.  The kernel chooses the results,
    which are signed; the total is not.  Next to the variables of the loop the
    state keeps what the socket has accepted, what was offered to it, and the
    rounds so far. -/

namespace WebLib

open ByteString

/-- What `errno` says after a failed `send`. -/
inductive Errno where
  /-- `EAGAIN` or `EWOULDBLOCK` -/
  | would_block
  | other
deriving DecidableEq, Repr

/-- The results of one round; `errno` counts after a negative `bytes_sent`, and
    `poll_result` when the socket is polled. -/
structure Round where
  bytes_sent : Int
  errno : Errno := .other
  poll_result : Int := 0
deriving DecidableEq, Repr

namespace Round

/-- The socket is polled. -/
def Polls (r : Round) : Prop := r.bytes_sent < 0 ∧ r.errno = .would_block

/-- `send` fails for another reason. -/
def Fails (r : Round) : Prop := r.bytes_sent < 0 ∧ r.errno = .other

instance (r : Round) : Decidable r.Polls := inferInstanceAs (Decidable (_ ∧ _))

instance (r : Round) : Decidable r.Fails := inferInstanceAs (Decidable (_ ∧ _))

theorem Polls.not_fails {r : Round} (h : r.Polls) : ¬ r.Fails := by
  intro hf
  have herrno := h.2.symm.trans hf.2
  cases herrno

/-- As the script of the whole call has it. -/
def outcome (r : Round) : SendOutcome :=
  if r.Polls then .would_block (0 < r.poll_result)
  else if r.Fails then .failed
  else .accepted r.bytes_sent.toNat

end Round

/-- `total += n` for a `size_t` and an `ssize_t`: a negative `n` wraps. -/
def size_add (total : Nat) (n : Int) : Nat :=
  if 0 ≤ n then total + n.toNat else size_sub total n.natAbs

/-- The call of `respond`, between two rounds. -/
structure Writing where
  write_total_size : Nat := 0
  accepted : Str := []
  /-- position and length of what each `send` was given -/
  offers : List (Nat × Nat) := []
  rounds : List Round := []
  ending : RespondEnd := .running
deriving DecidableEq, Repr

namespace Writing

/-- The condition of the `while`. -/
def loop_head (response : Str) (s : Writing) : Writing :=
  if s.write_total_size < response.length then s else { s with ending := .returned }

/-- A `send` of what is left has been called, and the round is known. -/
def noted (response : Str) (s : Writing) (r : Round) : Writing :=
  { s with
    offers := s.offers ++ [(s.write_total_size, size_sub response.length s.write_total_size)]
    rounds := s.rounds ++ [r] }

/-- What the socket takes is the beginning of what it is given. -/
def took (response : Str) (s : Writing) (bytes_sent : Int) : Writing :=
  { s with
    accepted := s.accepted ++ (response.drop s.write_total_size).take bytes_sent.toNat
    write_total_size := size_add s.write_total_size bytes_sent }

/-- The body of the loop. -/
def loop_body (response : Str) (s : Writing) (r : Round) : Writing :=
  let s := noted response s r
  if r.bytes_sent < 0 ∧ r.errno = .would_block then
    -- "Connection is lost when writing", or `continue`
    if r.poll_result ≤ 0 then { s with ending := .returned } else s
  -- with nothing accepted the round is only logged, and added
  else if r.bytes_sent = 0 then took response s r.bytes_sent
  else if r.bytes_sent < 0 then { s with ending := .throws }
  else took response s r.bytes_sent

/-- One round, when the call has not ended. -/
def round (response : Str) (s : Writing) (r : Round) : Option Writing :=
  match s.ending with
  | .running =>
      let s := loop_body response s r
      match s.ending with
      | .running => some (loop_head response s)
      | _ => some s
  | _ => none

/-- `send` never accepts more than it is given. -/
def KernelOk (response : Str) (s : Writing) (r : Round) : Prop :=
  r.bytes_sent ≤ size_sub response.length s.write_total_size

instance (response : Str) (s : Writing) (r : Round) : Decidable (KernelOk response s r) :=
  inferInstanceAs (Decidable (_ ≤ _))

/-- All calls of `respond` with this text, and any kernel. -/
def system (response : Str) : TransitionSystem Writing Round where
  init s := s = loop_head response {}
  step := round response

/-! ## What a round does -/

/-- The ways a round goes, each with the state it leads to. -/
inductive Rounded (response : Str) (s : Writing) (r : Round) : Writing → Prop where
  | lost : r.Polls → r.poll_result ≤ 0 →
      Rounded response s r { noted response s r with ending := .returned }
  | again : r.Polls → 0 < r.poll_result →
      Rounded response s r (loop_head response (noted response s r))
  | failed : r.Fails → Rounded response s r { noted response s r with ending := .throws }
  | sent : 0 ≤ r.bytes_sent →
      Rounded response s r (loop_head response (took response (noted response s r) r.bytes_sent))

theorem round_cases {response : Str} {s s' : Writing} {r : Round}
    (h : round response s r = some s') : s.ending = .running ∧ Rounded response s r s' := by
  rw [round] at h
  cases he : s.ending with
  | returned => rw [he] at h; cases h
  | throws => rw [he] at h; cases h
  | running =>
      refine ⟨rfl, ?_⟩
      have hnoted : (noted response s r).ending = .running := he
      rw [he] at h
      by_cases hpolls : r.bytes_sent < 0 ∧ r.errno = .would_block
      · by_cases hready : r.poll_result ≤ 0
        · have hbody : loop_body response s r = { noted response s r with ending := .returned } := by
            rw [loop_body, if_pos hpolls, if_pos hready]
          rw [hbody] at h
          exact Option.some.inj h ▸ .lost hpolls hready
        · have hbody : loop_body response s r = noted response s r := by
            rw [loop_body, if_pos hpolls, if_neg hready]
          simp only [hbody, hnoted] at h
          exact Option.some.inj h ▸ .again hpolls (Int.not_le.mp hready)
      · by_cases hneg : r.bytes_sent < 0
        · have hfails : r.Fails := by
            refine ⟨hneg, ?_⟩
            cases herrno : r.errno with
            | would_block => exact absurd ⟨hneg, herrno⟩ hpolls
            | other => rfl
          have hbody : loop_body response s r = { noted response s r with ending := .throws } := by
            rw [loop_body, if_neg hpolls, if_neg (by omega), if_pos hneg]
          rw [hbody] at h
          exact Option.some.inj h ▸ .failed hfails
        · have hbody : loop_body response s r
              = took response (noted response s r) r.bytes_sent := by
            rw [loop_body, if_neg hpolls, if_neg hneg, ite_self]
          have htook : (took response (noted response s r) r.bytes_sent).ending = .running := he
          simp only [hbody, htook] at h
          exact Option.some.inj h ▸ .sent (Int.not_lt.mp hneg)

/-! ## The invariant -/

/-- The last round that polled. -/
def last_poll (s : Writing) : Option Round := (s.rounds.filter fun r => r.Polls).getLast?

structure Sound (response : Str) (s : Writing) : Prop where
  accepted : s.accepted = response.take s.write_total_size
  fits : s.write_total_size ≤ response.length
  offers : ∀ o ∈ s.offers, o.1 + o.2 ≤ response.length
  running : s.ending = .running → s.write_total_size < response.length
  returned : s.ending = .returned →
    s.write_total_size = response.length ∨ ∃ r, s.last_poll = some r ∧ r.poll_result ≤ 0
  throws : s.ending = .throws ↔ ∃ r ∈ s.rounds, r.Fails

/-- The loop goes on, or everything has been sent. -/
theorem sound_loop_head {response : Str} {s : Writing}
    (haccepted : s.accepted = response.take s.write_total_size)
    (hfits : s.write_total_size ≤ response.length)
    (hoffers : ∀ o ∈ s.offers, o.1 + o.2 ≤ response.length) (hrunning : s.ending = .running)
    (hrounds : ∀ r ∈ s.rounds, ¬ r.Fails) : Sound response (loop_head response s) := by
  have hnone : ¬ ∃ r ∈ s.rounds, r.Fails := fun ⟨r, hr, hf⟩ => hrounds r hr hf
  rw [loop_head]
  by_cases hlt : s.write_total_size < response.length
  · rw [if_pos hlt]
    refine ⟨haccepted, hfits, hoffers, fun _ => hlt, fun h => ?_, ?_⟩
    · rw [hrunning] at h
      cases h
    · rw [hrunning]
      exact ⟨(fun h => by cases h), fun h => absurd h hnone⟩
  · rw [if_neg hlt]
    refine ⟨haccepted, hfits, hoffers, (fun h => by cases h), fun _ => ?_, ?_⟩
    · exact Or.inl (Nat.le_antisymm hfits (Nat.le_of_not_lt hlt))
    · exact ⟨(fun h => by cases h), fun h => absurd h hnone⟩

theorem Sound.left {response : Str} {s : Writing} (h : Sound response s) :
    size_sub response.length s.write_total_size = response.length - s.write_total_size :=
  size_sub_of_le h.fits

/-- A `send` is offered what is left. -/
theorem Sound.noted_offers {response : Str} {s : Writing} (h : Sound response s) (r : Round) :
    ∀ o ∈ (noted response s r).offers, o.1 + o.2 ≤ response.length := by
  intro o ho
  rcases List.mem_append.mp ho with ho | ho
  · exact h.offers o ho
  · have hfits := h.fits
    rw [List.mem_singleton.mp ho]
    simp only [h.left]
    omega

/-- While the call goes on no `send` has failed. -/
theorem Sound.noted_rounds {response : Str} {s : Writing} (h : Sound response s)
    (hrunning : s.ending = .running) {r : Round} (hr : ¬ r.Fails) :
    ∀ q ∈ (noted response s r).rounds, ¬ q.Fails := by
  intro q hq hf
  rcases List.mem_append.mp hq with hq | hq
  · have hthrows := h.throws.mpr ⟨q, hq, hf⟩
    rw [hrunning] at hthrows
    cases hthrows
  · exact hr (List.mem_singleton.mp hq ▸ hf)

theorem Sound.round {response : Str} {s s' : Writing} {r : Round} (h : Sound response s)
    (hok : KernelOk response s r) (hs : Writing.round response s r = some s') :
    Sound response s' := by
  obtain ⟨hrunning, hr⟩ := round_cases hs
  have hoffers := h.noted_offers r
  cases hr with
  | lost hpolls hready =>
      refine ⟨h.accepted, h.fits, hoffers, (fun he => by cases he),
        fun _ => Or.inr ⟨r, ?_, hready⟩, ?_⟩
      · simp [last_poll, noted, hpolls]
      · exact ⟨(fun he => by cases he),
          fun ⟨q, hq, hf⟩ => absurd hf (h.noted_rounds hrunning hpolls.not_fails q hq)⟩
  | again hpolls hready =>
      exact sound_loop_head h.accepted h.fits hoffers hrunning
        (h.noted_rounds hrunning hpolls.not_fails)
  | failed hfails =>
      refine ⟨h.accepted, h.fits, hoffers, (fun he => by cases he), (fun he => by cases he), ?_⟩
      exact ⟨fun _ => ⟨r, by simp [noted], hfails⟩, fun _ => rfl⟩
  | sent hpos =>
      have hnot : ¬ r.Fails := fun hf => Int.not_lt.mpr hpos hf.1
      have hfits := h.fits
      rw [KernelOk, h.left] at hok
      have hadd : size_add s.write_total_size r.bytes_sent
          = s.write_total_size + r.bytes_sent.toNat := if_pos hpos
      refine sound_loop_head ?_ ?_ hoffers hrunning (h.noted_rounds hrunning hnot)
      · simp only [took, noted, hadd]
        rw [h.accepted, ← List.take_add]
      · simp only [took, noted, hadd]
        omega

/-- **PARTIAL WRITES**: whatever the kernel answers, what was accepted is the
    beginning of the response up to the total; a call that returns has sent all
    of it or has seen a `poll` fail; it throws exactly after a failed `send`;
    and it offers nothing from behind the response. -/
theorem partial_writes (resp : HttpResponse) {s : Writing}
    (h : (system resp.to_string).Reach (KernelOk resp.to_string) s) :
    s.accepted = resp.to_string.take s.write_total_size
      ∧ s.write_total_size ≤ resp.to_string.length
      ∧ (s.ending = .returned →
        s.accepted = resp.to_string ∨ ∃ r, s.last_poll = some r ∧ r.poll_result ≤ 0)
      ∧ (s.ending = .throws ↔ ∃ r ∈ s.rounds, r.Fails)
      ∧ ∀ o ∈ s.offers, o.1 + o.2 ≤ resp.to_string.length := by
  have hsound : Sound resp.to_string s := by
    refine h.invariant (I := Sound resp.to_string) ?_ fun _ _ _ hi hok hs => hi.round hok hs
    rintro s rfl
    exact sound_loop_head rfl (Nat.zero_le _) (List.forall_mem_nil _) rfl (List.forall_mem_nil _)
  refine ⟨hsound.accepted, hsound.fits, fun he => ?_, hsound.throws, hsound.offers⟩
  refine (hsound.returned he).imp_left fun hall => ?_
  rw [hsound.accepted, hall, List.take_length]

/-! ## The call as a whole -/

theorem round_of_ended {response : Str} {s : Writing} (h : s.ending ≠ .running) (r : Round) :
    round response s r = none := by
  rw [round]
  cases he : s.ending with
  | running => exact absurd he h
  | returned => rfl
  | throws => rfl

/-- A run goes no further than the end of the call. -/
theorem run_of_ended {response : Str} {s s' : Writing} (h : s.ending ≠ .running)
    {rounds : List Round} (hrun : (system response).run (KernelOk response) s rounds = some s') :
    rounds = [] ∧ s' = s := by
  cases rounds with
  | nil => exact ⟨rfl, (Option.some.inj hrun).symm⟩
  | cons r rounds =>
      have hnone : (system response).step s r = none := round_of_ended h r
      rw [TransitionSystem.run, hnone] at hrun
      split at hrun <;> cases hrun

theorem outcome_of_polls {r : Round} (h : r.Polls) : r.outcome = .would_block (0 < r.poll_result) :=
  if_pos h

theorem outcome_of_fails {r : Round} (h : r.Fails) : r.outcome = .failed := by
  rw [Round.outcome, if_neg fun hp : r.Polls => hp.not_fails h, if_pos h]

theorem outcome_of_nonneg {r : Round} (h : 0 ≤ r.bytes_sent) :
    r.outcome = .accepted r.bytes_sent.toNat := by
  rw [Round.outcome, if_neg fun hp : r.Polls => Int.not_lt.mpr h hp.1,
    if_neg fun hf : r.Fails => Int.not_lt.mpr h hf.1]

/-- Behind the loop condition the call is over or at the next round. -/
theorem loop_head_cases (response : Str) (s : Writing) :
    (s.write_total_size < response.length ∧ loop_head response s = s)
      ∨ (response.length ≤ s.write_total_size ∧ (loop_head response s).ending = .returned
        ∧ (loop_head response s).accepted = s.accepted) := by
  rw [loop_head]
  by_cases hlt : s.write_total_size < response.length
  · exact Or.inl ⟨hlt, if_pos hlt⟩
  · rw [if_neg hlt]
    exact Or.inr ⟨Nat.le_of_not_lt hlt, rfl, rfl⟩

/-- One round and the head of the script: the call goes on behind the bytes of the
    round, or it is over with them. -/
theorem respond_loop_round {response : Str} {s s' : Writing} {r : Round}
    (hrunning : s.ending = .running) (hlt : s.write_total_size < response.length)
    (hok : KernelOk response s r) (hr : Rounded response s r s') (script : List SendOutcome) :
    ∃ bytes, s'.accepted = s.accepted ++ bytes
      ∧ ((s'.ending = .running ∧ s'.write_total_size < response.length
          ∧ respond_loop response s.write_total_size (r.outcome :: script)
            = { respond_loop response s'.write_total_size script with
                bytes := bytes ++ (respond_loop response s'.write_total_size script).bytes })
        ∨ (s'.ending ≠ .running
          ∧ respond_loop response s.write_total_size (r.outcome :: script)
            = ⟨bytes, s'.ending, script⟩)) := by
  cases hr with
  | lost hpolls hready =>
      have hlost : decide (0 < r.poll_result) = false := by simpa using hready
      refine ⟨[], (List.append_nil _).symm, Or.inr ⟨by simp, ?_⟩⟩
      rw [outcome_of_polls hpolls, hlost, respond_loop_lost hlt]
  | failed hfails =>
      refine ⟨[], (List.append_nil _).symm, Or.inr ⟨by simp, ?_⟩⟩
      rw [outcome_of_fails hfails, respond_loop_failed hlt]
  | again hpolls hready =>
      have hhead : loop_head response (noted response s r) = noted response s r := if_pos hlt
      rw [hhead]
      refine ⟨[], (List.append_nil _).symm, Or.inl ⟨hrunning, hlt, ?_⟩⟩
      rw [outcome_of_polls hpolls, decide_eq_true hready, respond_loop_ready hlt]
      rfl
  | sent hpos =>
      have hleft : size_sub response.length s.write_total_size
          = response.length - s.write_total_size := size_sub_of_le (Nat.le_of_lt hlt)
      rw [KernelOk, hleft] at hok
      have hmin : min r.bytes_sent.toNat (response.length - s.write_total_size)
          = r.bytes_sent.toNat := by omega
      have htotal : (took response (noted response s r) r.bytes_sent).write_total_size
          = s.write_total_size + r.bytes_sent.toNat := if_pos hpos
      rw [outcome_of_nonneg hpos, respond_loop_accepted hlt, hmin, ← htotal]
      rcases loop_head_cases response (took response (noted response s r) r.bytes_sent) with
        ⟨hmore, hhead⟩ | ⟨hdone, hend, haccepted⟩
      · rw [hhead]
        exact ⟨_, rfl, Or.inl ⟨hrunning, hmore, rfl⟩⟩
      · refine ⟨_, haccepted, Or.inr ⟨by simp [hend], ?_⟩⟩
        rw [respond_loop_done hdone, hend, List.append_nil]
        rfl

theorem respond_loop_of_run {response : Str} {rounds : List Round} :
    ∀ {s s' : Writing}, s.ending = .running → s.write_total_size < response.length →
      (system response).run (KernelOk response) s rounds = some s' →
      ∃ bytes, s'.accepted = s.accepted ++ bytes
        ∧ respond_loop response s.write_total_size (rounds.map Round.outcome)
          = ⟨bytes, s'.ending, []⟩ := by
  induction rounds with
  | nil =>
      intro s s' hrunning hlt hrun
      obtain rfl := Option.some.inj hrun
      exact ⟨[], (List.append_nil _).symm, by rw [List.map_nil, respond_loop_nil hlt, hrunning]⟩
  | cons r rounds ih =>
      intro s s' hrunning hlt hrun
      rw [TransitionSystem.run] at hrun
      split at hrun
      · next hok =>
          obtain ⟨s₁, hs, hrest⟩ := Option.bind_eq_some_iff.mp hrun
          obtain ⟨bytes, hbytes, ⟨hrunning₁, hlt₁, hloop⟩ | ⟨hend, hloop⟩⟩ :=
            respond_loop_round hrunning hlt hok (round_cases hs).2 (rounds.map Round.outcome)
          · obtain ⟨more, hmore, hloop₁⟩ := ih hrunning₁ hlt₁ hrest
            refine ⟨bytes ++ more, ?_, ?_⟩
            · rw [hmore, hbytes, List.append_assoc]
            · rw [List.map_cons, hloop, hloop₁]
          · obtain ⟨rfl, rfl⟩ := run_of_ended hend hrest
            exact ⟨bytes, hbytes, hloop⟩
      · cases hrun

/-- **ROUND BY ROUND** is as a whole: the call with the outcomes of the rounds as
    its script accepts the same bytes and ends the same way. -/
theorem respond_of_run (resp : HttpResponse) {rounds : List Round} {s : Writing}
    (hrun : (system resp.to_string).run (KernelOk resp.to_string) (loop_head resp.to_string {})
      rounds = some s) :
    respond resp (rounds.map Round.outcome) = ⟨s.accepted, s.ending, []⟩ := by
  have hpos : 0 < resp.to_string.length := List.length_pos_iff.mpr resp.to_string_ne_nil
  have hhead : loop_head resp.to_string {} = {} := if_pos hpos
  rw [hhead] at hrun
  obtain ⟨bytes, hbytes, hloop⟩ := respond_loop_of_run rfl hpos hrun
  rw [respond, hloop, hbytes]
  rfl

/-- Three bytes, a full socket, and the rest. -/
theorem partial_writes_sample :
    ∃ s, (system ({} : HttpResponse).to_string).Reach (KernelOk ({} : HttpResponse).to_string) s
      ∧ s.ending = .returned ∧ s.rounds.length = 3
      ∧ s.accepted = ({} : HttpResponse).to_string.take s.write_total_size := by
  have h0 : (system ({} : HttpResponse).to_string).Reach
      (KernelOk ({} : HttpResponse).to_string) (loop_head ({} : HttpResponse).to_string {}) :=
    .init rfl
  obtain ⟨s, hreach, hend, hrounds⟩ := h0.exists_of_run
    (fun s => s.ending = .returned ∧ s.rounds.length = 3)
    [⟨3, .other, 0⟩, ⟨-1, .would_block, 1⟩, ⟨({} : HttpResponse).to_string.length - 3, .other, 0⟩]
    (by decide)
  exact ⟨s, hreach, hend, hrounds, (partial_writes {} hreach).1⟩

end Writing

end WebLib
