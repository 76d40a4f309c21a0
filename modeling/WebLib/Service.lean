import WebLib.BodyCounter
import WebLib.BodyCut
import WebLib.TransitionSystem

/-! # What the server is for

    The server as its users see it: connections, each with a reader of its own,
    a queue of the connections whose request is complete, and the answers given.
    There are no descriptors here, no table of clients and no poll vector, and
    nothing that two connections share but the order of the queue.

    A connection is read until `read_request` reports its request complete, is
    then queued with the bytes read so far, taken, and answered for them; one
    that ends or fails before is dropped.  `WebLib.Sessions` says when the event
    loop and its workers do no more than this. -/

namespace WebLib.Service

open WebLib ByteString ReadRequest BodyCut TransitionSystem

/-- The identity of a connection: the number of connections before it. -/
abbrev ConnId := Nat

/-- Where a connection is. -/
inductive Stage where
  | reading (client : Client)
  | queued (request : Str)
  | answering (request : Str)
  | answered (request : Str)
  | dropped
deriving DecidableEq, Repr

/-- A connection: the number its client has, what was read from it, and where it
    is. -/
structure Session where
  fd : Nat
  reads : List ReadResult
  stage : Stage
deriving DecidableEq, Repr

structure State where
  sessions : List Session
  queue : List ConnId
  in_hand : List ConnId
  answers : List (ConnId × Str)
  stopped : Bool
deriving DecidableEq, Repr

inductive Action where
  | accept (fd : Nat)
  /-- accepted, and given up: the socket could not be made non-blocking -/
  | refuse (fd : Nat)
  | read (c : ConnId) (rd : ReadResult)
  | take
  | answer (j : Nat)
  | stop
deriving DecidableEq, Repr

namespace State

/-- Connection `c` moves on. -/
def goto (s : State) (c : ConnId) (x : Session) : State :=
  { s with sessions := s.sessions.set c x }

/-- The place of connection `c`. -/
def stage (s : State) (c : ConnId) : Option Stage := s.sessions[c]?.map Session.stage

end State

/-- One read of a connection whose client is `client`. -/
def read (s : State) (c : ConnId) (x : Session) (client : Client) (rd : ReadResult) : State :=
  let reads := x.reads ++ [rd]
  let client' := (read_request client rd).1
  match (read_request client rd).2 with
  | .ok .READ_MORE => s.goto c ⟨x.fd, reads, .reading client'⟩
  | .ok .END_OF_CONNECTION =>
      { s.goto c ⟨x.fd, reads, .queued client'.raw_http⟩ with queue := s.queue ++ [c] }
  | .ok .CONNECTION_ABORTED | .ok .CONNECTION_ERROR => s.goto c ⟨x.fd, reads, .dropped⟩
  | .error _ => { s.goto c ⟨x.fd, reads, .dropped⟩ with stopped := true }

/-- Once it has stopped it accepts and reads no more; what is queued is still
    answered. -/
def step (s : State) : Action → Option State
  | .accept fd =>
      if s.stopped then none
      else some { s with sessions := s.sessions ++ [⟨fd, [], .reading (.accepted fd)⟩] }
  | .refuse fd =>
      if s.stopped then none
      else some { s with sessions := s.sessions ++ [⟨fd, [], .dropped⟩], stopped := true }
  | .read c rd =>
      if s.stopped then none
      else
        match s.sessions[c]? with
        | some x =>
            match x.stage with
            | .reading client => some (read s c x client rd)
            | _ => none
        | none => none
  | .take =>
      match s.queue with
      | [] => none
      | c :: rest =>
          match s.sessions[c]? with
          | some x =>
              match x.stage with
              | .queued request => some
                  { s.goto c ⟨x.fd, x.reads, .answering request⟩ with
                    queue := rest, in_hand := s.in_hand ++ [c] }
              | _ => none
          | none => none
  | .answer j =>
      match s.in_hand[j]? with
      | none => none
      | some c =>
          match s.sessions[c]? with
          | some x =>
              match x.stage with
              | .answering request => some
                  { s.goto c ⟨x.fd, x.reads, .answered request⟩ with
                    in_hand := s.in_hand.eraseIdx j, answers := s.answers ++ [(c, request)] }
              | _ => none
          | none => none
  | .stop => some { s with stopped := true }

/-- No connection yet. -/
def init (stopped : Bool) : State := ⟨[], [], [], [], stopped⟩

def service : TransitionSystem State Action where
  init s := ∃ stopped, s = init stopped
  step := step

/-! ## What every connection gets -/

/-- A call after which nothing is read any more and nothing was completed. -/
def Lost : Except Fault ReadRequest.State → Prop
  | .error _ | .ok .CONNECTION_ABORTED | .ok .CONNECTION_ERROR => True
  | .ok .READ_MORE | .ok .END_OF_CONNECTION => False

/-- A connection that is read has asked for more so far; one that was queued, and
    what became of it, has the bytes up to the read that completed its request;
    one that was dropped was never read, or its last read lost it. -/
def Session.Sound (x : Session) : Prop :=
  match x.stage with
  | .reading client => Running x.fd x.reads ∧ client = (read_all (Client.accepted x.fd) x.reads).1
  | .queued request | .answering request | .answered request =>
      ∃ reads last, x.reads = reads ++ [.data last] ∧ Ends x.fd reads last
        ∧ request = buffered x.fd reads last
  | .dropped => x.reads = [] ∨ ∃ reads rd, x.reads = reads ++ [rd] ∧ Running x.fd reads
      ∧ Lost (read_request (read_all (Client.accepted x.fd) reads).1 rd).2

/-- Each connection is sound; the lists hold the connections they are about, each
    once. -/
structure Good (s : State) : Prop where
  sound : ∀ x ∈ s.sessions, x.Sound
  queue : ∀ c, c ∈ s.queue ↔ ∃ request, s.stage c = some (.queued request)
  in_hand : ∀ c, c ∈ s.in_hand ↔ ∃ request, s.stage c = some (.answering request)
  answers : ∀ c request, (c, request) ∈ s.answers ↔ s.stage c = some (.answered request)
  queue_nodup : s.queue.Nodup
  in_hand_nodup : s.in_hand.Nodup
  answers_nodup : (s.answers.map Prod.fst).Nodup

theorem stage_goto {s : State} {c : ConnId} {x : Session} (hc : s.sessions[c]? = some x)
    (y : Session) (d : ConnId) :
    (s.goto c y).stage d = if d = c then some y.stage else s.stage d := by
  obtain ⟨hlt, -⟩ := List.getElem?_eq_some_iff.mp hc
  rw [State.stage, State.goto, List.getElem?_set]
  by_cases hd : d = c
  · rw [if_pos hd.symm, if_pos hd, if_pos (hd ▸ hlt)]
    rfl
  · rw [if_neg (Ne.symm hd), if_neg hd]
    rfl

theorem stage_of_sessions {s : State} {c : ConnId} {x : Session}
    (hc : s.sessions[c]? = some x) : s.stage c = some x.stage := by
  rw [State.stage, hc]
  rfl

/-- A new connection is in no list. -/
theorem stage_append (s : State) (x : Session) (d : ConnId) :
    ({ s with sessions := s.sessions ++ [x] } : State).stage d
      = if d = s.sessions.length then some x.stage else s.stage d := by
  rw [State.stage, State.stage]
  by_cases hd : d = s.sessions.length
  · rw [if_pos hd, hd]
    simp
  · rw [if_neg hd]
    rcases Nat.lt_or_gt_of_ne hd with hlt | hgt
    · rw [List.getElem?_append_left hlt]
    · have hlen : (s.sessions ++ [x]).length ≤ d := by
        rw [List.length_append]
        exact hgt
      rw [List.getElem?_eq_none hlen, List.getElem?_eq_none (Nat.le_of_lt hgt)]

theorem stage_length (s : State) : s.stage s.sessions.length = none := by
  rw [State.stage, List.getElem?_eq_none (Nat.le_refl _)]
  rfl

theorem sound_goto {s : State} (h : ∀ x ∈ s.sessions, x.Sound) {c : ConnId} {y : Session}
    (hy : y.Sound) : ∀ x ∈ (s.goto c y).sessions, x.Sound := by
  intro x hx
  rcases List.mem_or_eq_of_mem_set hx with hold | rfl
  · exact h x hold
  · exact hy

theorem sound_append {s : State} (h : ∀ x ∈ s.sessions, x.Sound) {y : Session} (hy : y.Sound) :
    ∀ x ∈ s.sessions ++ [y], x.Sound := by
  intro x hx
  rcases List.mem_append.mp hx with hold | hnew
  · exact h x hold
  · exact List.mem_singleton.mp hnew ▸ hy

/-- A connection that comes in and is in no list. -/
theorem Good.push {s s' : State} (h : Good s) {x : Session} (hx : x.Sound)
    (hstage : (∃ client, x.stage = .reading client) ∨ x.stage = .dropped)
    (hs : s'.sessions = s.sessions ++ [x]) (hq : s'.queue = s.queue)
    (hi : s'.in_hand = s.in_hand) (ha : s'.answers = s.answers) : Good s' := by
  have hp : ∀ d, s'.stage d = if d = s.sessions.length then some x.stage else s.stage d := by
    intro d
    rw [← stage_append s x d, State.stage, State.stage, hs]
  have hnone := stage_length s
  -- neither a new place nor an old one of the new identity
  have same : ∀ d p, (∀ client, p ≠ .reading client) → p ≠ .dropped →
      (s'.stage d = some p ↔ s.stage d = some p) := by
    intro d p hr hd
    rw [hp d]
    split
    · next heq =>
        rw [heq, hnone]
        refine iff_of_false ?_ (by simp)
        rintro hxp
        obtain rfl := Option.some.inj hxp
        rcases hstage with ⟨client, hc⟩ | hc
        · exact hr client hc
        · exact hd hc
    · exact Iff.rfl
  refine ⟨?_, ?_, ?_, ?_, hq ▸ h.queue_nodup, hi ▸ h.in_hand_nodup, ha ▸ h.answers_nodup⟩
  · rw [hs]
    exact sound_append h.sound hx
  · intro d
    rw [hq, h.queue d]
    exact exists_congr fun request => (same d _ (by simp) (by simp)).symm
  · intro d
    rw [hi, h.in_hand d]
    exact exists_congr fun request => (same d _ (by simp) (by simp)).symm
  · intro d request
    rw [ha, h.answers d request]
    exact (same d _ (by simp) (by simp)).symm

/-- A connection that moves: the lists lose it and gain it as its new place says. -/
theorem Good.move {s s' : State} (h : Good s) {c : ConnId} {x y : Session}
    (hc : s.sessions[c]? = some x) (hy : y.Sound) (hs : s'.sessions = s.sessions.set c y)
    (hq : ∀ d, d ∈ s'.queue ↔ (d = c ∧ ∃ request, y.stage = .queued request)
      ∨ (d ≠ c ∧ d ∈ s.queue))
    (hi : ∀ d, d ∈ s'.in_hand ↔ (d = c ∧ ∃ request, y.stage = .answering request)
      ∨ (d ≠ c ∧ d ∈ s.in_hand))
    (ha : ∀ d request, (d, request) ∈ s'.answers ↔ (d = c ∧ y.stage = .answered request)
      ∨ (d ≠ c ∧ (d, request) ∈ s.answers))
    (hqn : s'.queue.Nodup) (hin : s'.in_hand.Nodup) (han : (s'.answers.map Prod.fst).Nodup) :
    Good s' := by
  have hp : ∀ d, s'.stage d = if d = c then some y.stage else s.stage d := by
    intro d
    rw [← stage_goto hc y d, State.stage, State.stage, State.goto, hs]
  refine ⟨?_, ?_, ?_, ?_, hqn, hin, han⟩
  · rw [hs]
    exact sound_goto h.sound hy
  · intro d
    rw [hq d, hp d]
    by_cases hd : d = c
    · simp [hd]
    · simp [hd, h.queue d]
  · intro d
    rw [hi d, hp d]
    by_cases hd : d = c
    · simp [hd]
    · simp [hd, h.in_hand d]
  · intro d request
    rw [ha d request, hp d]
    by_cases hd : d = c
    · simp [hd]
    · simp [hd, h.answers d request]

theorem Good.not_mem_queue {s : State} (h : Good s) {c : ConnId} {p : Stage}
    (hp : s.stage c = some p) (hne : ∀ request, p ≠ .queued request) : c ∉ s.queue := by
  intro hm
  obtain ⟨request, hq⟩ := (h.queue c).mp hm
  exact hne request (Option.some.inj (hp.symm.trans hq))

theorem Good.not_mem_in_hand {s : State} (h : Good s) {c : ConnId} {p : Stage}
    (hp : s.stage c = some p) (hne : ∀ request, p ≠ .answering request) : c ∉ s.in_hand := by
  intro hm
  obtain ⟨request, hq⟩ := (h.in_hand c).mp hm
  exact hne request (Option.some.inj (hp.symm.trans hq))

theorem Good.not_mem_answers {s : State} (h : Good s) {c : ConnId} {p : Stage}
    (hp : s.stage c = some p) (hne : ∀ request, p ≠ .answered request) :
    c ∉ s.answers.map Prod.fst := by
  intro hm
  obtain ⟨⟨d, request⟩, hmem, rfl⟩ := List.mem_map.mp hm
  exact hne request (Option.some.inj (hp.symm.trans ((h.answers d request).mp hmem)))

/-- Another connection is in a list that `c` is not in. -/
theorem mem_iff_ne_and {α : Type*} {l : List α} {c d : α} (hc : c ∉ l) :
    d ∈ l ↔ d ≠ c ∧ d ∈ l :=
  ⟨fun hd => ⟨fun he => hc (he ▸ hd), hd⟩, fun h => h.2⟩

/-- The lists stay when `c` is in none of them before and after. -/
theorem Good.stay {s s' : State} (h : Good s) {c : ConnId} {x y : Session} {client : Client}
    (hc : s.sessions[c]? = some x) (hx : x.stage = .reading client) (hy : y.Sound)
    (hstage : (∃ client, y.stage = .reading client) ∨ y.stage = .dropped)
    (hs : s'.sessions = s.sessions.set c y) (hq : s'.queue = s.queue)
    (hi : s'.in_hand = s.in_hand) (ha : s'.answers = s.answers) : Good s' := by
  have hp : s.stage c = some (.reading client) := by rw [stage_of_sessions hc, hx]
  have hnq := h.not_mem_queue hp (by simp)
  have hni := h.not_mem_in_hand hp (by simp)
  have hna := h.not_mem_answers hp (by simp)
  have hyne : (∀ request, y.stage ≠ .queued request) ∧ (∀ request, y.stage ≠ .answering request)
      ∧ ∀ request, y.stage ≠ .answered request := by
    rcases hstage with ⟨client', hr⟩ | hr <;> simp [hr]
  refine h.move hc hy hs ?_ ?_ ?_ (hq ▸ h.queue_nodup) (hi ▸ h.in_hand_nodup)
    (ha ▸ h.answers_nodup)
  · intro d
    rw [hq, mem_iff_ne_and hnq]
    simp [hyne.1]
  · intro d
    rw [hi, mem_iff_ne_and hni]
    simp [hyne.2.1]
  · intro d request
    rw [ha]
    constructor
    · intro hd
      refine Or.inr ⟨?_, hd⟩
      rintro rfl
      exact hna (List.mem_map.mpr ⟨_, hd, rfl⟩)
    · rintro (⟨-, hd⟩ | ⟨-, hd⟩)
      · exact absurd hd (hyne.2.2 request)
      · exact hd

/-- A read that asks for more leaves a sound reader. -/
theorem Session.Sound.more {x : Session} {client : Client} {rd : ReadResult} (h : x.Sound)
    (hx : x.stage = .reading client) (hr : (read_request client rd).2 = .ok .READ_MORE) :
    (⟨x.fd, x.reads ++ [rd], .reading (read_request client rd).1⟩ : Session).Sound := by
  rw [Session.Sound, hx] at h
  obtain ⟨hrun, hclient⟩ := h
  have hall := read_all_concat rd hrun
  rw [← hclient] at hall
  refine ⟨?_, by rw [hall]⟩
  intro r hmem
  rw [hall, hr] at hmem
  rcases List.mem_append.mp hmem with hold | hnew
  · exact hrun r hold
  · exact List.mem_singleton.mp hnew

/-- A read that reports the end leaves the bytes up to it. -/
theorem Session.Sound.complete {x : Session} {client : Client} {last : Chunk} (h : x.Sound)
    (hx : x.stage = .reading client)
    (hr : (read_request client (.data last)).2 = .ok .END_OF_CONNECTION) :
    (⟨x.fd, x.reads ++ [.data last], .queued (read_request client (.data last)).1.raw_http⟩
      : Session).Sound := by
  rw [Session.Sound, hx] at h
  obtain ⟨hrun, hclient⟩ := h
  refine ⟨x.reads, last, rfl, ⟨hrun, ?_⟩, ?_⟩
  · rw [← hclient]
    exact hr
  · rw [buffered, ← hclient]

/-- A read that loses the connection. -/
theorem Session.Sound.lost {x : Session} {client : Client} {rd : ReadResult} (h : x.Sound)
    (hx : x.stage = .reading client) (hr : Lost (read_request client rd).2) :
    (⟨x.fd, x.reads ++ [rd], .dropped⟩ : Session).Sound := by
  rw [Session.Sound, hx] at h
  obtain ⟨hrun, hclient⟩ := h
  rw [hclient] at hr
  exact Or.inr ⟨x.reads, rd, rfl, hrun, hr⟩

/-- A connection whose request is complete joins the queue. -/
theorem Good.complete {s : State} (h : Good s) {c : ConnId} {x y : Session} {client : Client}
    {request : Str} (hc : s.sessions[c]? = some x) (hx : x.stage = .reading client)
    (hy : y.Sound) (hstage : y.stage = .queued request) :
    Good { s.goto c y with queue := s.queue ++ [c] } := by
  have hp : s.stage c = some (.reading client) := by rw [stage_of_sessions hc, hx]
  have hnq := h.not_mem_queue hp (by simp)
  refine h.move hc hy rfl ?_ ?_ ?_ ?_ h.in_hand_nodup h.answers_nodup
  · intro d
    show d ∈ s.queue ++ [c] ↔ _
    rw [List.mem_append, List.mem_singleton, hstage]
    constructor
    · rintro (hd | rfl)
      · exact Or.inr ((mem_iff_ne_and hnq).mp hd)
      · exact Or.inl ⟨rfl, _, rfl⟩
    · rintro (⟨rfl, -⟩ | ⟨-, hd⟩)
      · exact Or.inr rfl
      · exact Or.inl hd
  · intro d
    show d ∈ s.in_hand ↔ _
    rw [mem_iff_ne_and (h.not_mem_in_hand hp (by simp)), hstage]
    simp
  · intro d request'
    show (d, request') ∈ s.answers ↔ _
    rw [hstage]
    constructor
    · intro hd
      refine Or.inr ⟨?_, hd⟩
      rintro rfl
      exact h.not_mem_answers hp (by simp) (List.mem_map.mpr ⟨_, hd, rfl⟩)
    · rintro (⟨-, hd⟩ | ⟨-, hd⟩)
      · cases hd
      · exact hd
  · show (s.queue ++ [c]).Nodup
    exact h.queue_nodup.append (List.nodup_singleton c) (by simpa using hnq)

/-- A read keeps everything in order: it goes on from what was read before. -/
theorem Good.read {s : State} (h : Good s) {c : ConnId} {x : Session} {client : Client}
    (hc : s.sessions[c]? = some x) (hx : x.stage = .reading client) (rd : ReadResult) :
    Good (Service.read s c x client rd) := by
  have hsound := h.sound x (List.mem_of_getElem? hc)
  have hdrop : Lost (read_request client rd).2 →
      (⟨x.fd, x.reads ++ [rd], .dropped⟩ : Session).Sound := hsound.lost hx
  rw [Service.read]
  simp only
  cases hr : (read_request client rd).2 with
  | error f => exact h.stay hc hx (hdrop (hr ▸ trivial)) (Or.inr rfl) rfl rfl rfl rfl
  | ok st =>
      cases st with
      | CONNECTION_ABORTED =>
          exact h.stay hc hx (hdrop (hr ▸ trivial)) (Or.inr rfl) rfl rfl rfl rfl
      | CONNECTION_ERROR =>
          exact h.stay hc hx (hdrop (hr ▸ trivial)) (Or.inr rfl) rfl rfl rfl rfl
      | READ_MORE => exact h.stay hc hx (hsound.more hx hr) (Or.inl ⟨_, rfl⟩) rfl rfl rfl rfl
      | END_OF_CONNECTION =>
          obtain ⟨last, rfl⟩ := read_request_end hr
          exact h.complete hc hx (hsound.complete hx hr) rfl

/-- The first of the queue is taken. -/
theorem Good.take {s : State} (h : Good s) {c : ConnId} {rest : List ConnId} {x : Session}
    {request : Str} (hq : s.queue = c :: rest) (hc : s.sessions[c]? = some x)
    (hx : x.stage = .queued request) :
    Good { s.goto c ⟨x.fd, x.reads, .answering request⟩ with
      queue := rest, in_hand := s.in_hand ++ [c] } := by
  have hsound := h.sound x (List.mem_of_getElem? hc)
  have hp : s.stage c = some (.queued request) := by rw [stage_of_sessions hc, hx]
  have hni := h.not_mem_in_hand hp (by simp)
  have hnodup := h.queue_nodup
  rw [hq, List.nodup_cons] at hnodup
  refine h.move hc ?_ rfl ?_ ?_ ?_ hnodup.2 ?_ h.answers_nodup
  · rw [Session.Sound, hx] at hsound
    exact hsound
  · intro d
    show d ∈ rest ↔ _
    rw [mem_iff_ne_and hnodup.1, hq]
    by_cases hd : d = c
    · simp [hd]
    · simp [hd]
  · intro d
    show d ∈ s.in_hand ++ [c] ↔ _
    rw [List.mem_append, List.mem_singleton]
    constructor
    · rintro (hd | rfl)
      · exact Or.inr ((mem_iff_ne_and hni).mp hd)
      · exact Or.inl ⟨rfl, _, rfl⟩
    · rintro (⟨rfl, -⟩ | ⟨-, hd⟩)
      · exact Or.inr rfl
      · exact Or.inl hd
  · intro d request'
    show (d, request') ∈ s.answers ↔ _
    constructor
    · intro hd
      refine Or.inr ⟨?_, hd⟩
      rintro rfl
      exact h.not_mem_answers hp (by simp) (List.mem_map.mpr ⟨_, hd, rfl⟩)
    · rintro (⟨-, hd⟩ | ⟨-, hd⟩)
      · cases hd
      · exact hd
  · show (s.in_hand ++ [c]).Nodup
    exact h.in_hand_nodup.append (List.nodup_singleton c) (by simpa using hni)

/-- One in hand is answered, with its own request. -/
theorem Good.answer {s : State} (h : Good s) {j : Nat} {c : ConnId} {x : Session}
    {request : Str} (hj : s.in_hand[j]? = some c) (hc : s.sessions[c]? = some x)
    (hx : x.stage = .answering request) :
    Good { s.goto c ⟨x.fd, x.reads, .answered request⟩ with
      in_hand := s.in_hand.eraseIdx j, answers := s.answers ++ [(c, request)] } := by
  have hsound := h.sound x (List.mem_of_getElem? hc)
  have hp : s.stage c = some (.answering request) := by rw [stage_of_sessions hc, hx]
  have hna := h.not_mem_answers hp (by simp)
  obtain ⟨hlt, hget⟩ := List.getElem?_eq_some_iff.mp hj
  have hperm : s.in_hand.Perm (c :: s.in_hand.eraseIdx j) := by
    rw [← hget]
    exact (List.getElem_cons_eraseIdx_perm hlt).symm
  have hnodup := hperm.nodup_iff.mp h.in_hand_nodup
  rw [List.nodup_cons] at hnodup
  refine h.move hc ?_ rfl ?_ ?_ ?_ h.queue_nodup hnodup.2 ?_
  · rw [Session.Sound, hx] at hsound
    exact hsound
  · intro d
    show d ∈ s.queue ↔ _
    rw [mem_iff_ne_and (h.not_mem_queue hp (by simp))]
    simp
  · intro d
    show d ∈ s.in_hand.eraseIdx j ↔ _
    rw [mem_iff_ne_and hnodup.1, hperm.mem_iff]
    by_cases hd : d = c
    · simp [hd]
    · simp [hd]
  · intro d request'
    show (d, request') ∈ s.answers ++ [(c, request)] ↔ _
    rw [List.mem_append, List.mem_singleton]
    constructor
    · rintro (hd | heq)
      · refine Or.inr ⟨?_, hd⟩
        rintro rfl
        exact hna (List.mem_map.mpr ⟨_, hd, rfl⟩)
      · cases heq
        exact Or.inl ⟨rfl, rfl⟩
    · rintro (⟨rfl, heq⟩ | ⟨-, hd⟩)
      · cases heq
        exact Or.inr rfl
      · exact Or.inl hd
  · show ((s.answers ++ [(c, request)]).map Prod.fst).Nodup
    rw [List.map_append]
    exact h.answers_nodup.append (List.nodup_singleton c) (by simpa using hna)

theorem good_init (stopped : Bool) : Good (init stopped) where
  sound := List.forall_mem_nil _
  queue := fun c => by simp [init, State.stage]
  in_hand := fun c => by simp [init, State.stage]
  answers := fun c request => by simp [init, State.stage]
  queue_nodup := List.nodup_nil
  in_hand_nodup := List.nodup_nil
  answers_nodup := List.nodup_nil

/-- Every step keeps everything in order. -/
theorem Good.step {s s' : State} (h : Good s) {a : Action} (hs : Service.step s a = some s') :
    Good s' := by
  cases a <;> simp only [Service.step] at hs
  case accept fd =>
    split at hs <;> cases hs
    exact h.push (x := ⟨fd, [], .reading (.accepted fd)⟩)
      ⟨List.forall_mem_nil _, rfl⟩ (Or.inl ⟨_, rfl⟩) rfl rfl rfl rfl
  case refuse fd =>
    split at hs <;> cases hs
    exact h.push (x := ⟨fd, [], .dropped⟩) (Or.inl rfl) (Or.inr rfl) rfl rfl rfl rfl
  case read c rd =>
    split at hs
    · cases hs
    · split at hs
      · next x hc =>
          split at hs <;> cases hs
          next client hx => exact h.read hc hx rd
      · cases hs
  case take =>
    split at hs
    · cases hs
    · next c rest hq =>
        split at hs
        · next x hc =>
            split at hs <;> cases hs
            next request hx => exact h.take hq hc hx
        · cases hs
  case answer j =>
    split at hs
    · cases hs
    · next c hj =>
        split at hs
        · next x hc =>
            split at hs <;> cases hs
            next request hx => exact h.answer hj hc hx
        · cases hs
  case stop =>
    cases hs
    exact ⟨h.sound, h.queue, h.in_hand, h.answers, h.queue_nodup, h.in_hand_nodup,
      h.answers_nodup⟩

/-- **WHAT THE SERVICE GIVES**: in every run each connection is answered once at
    most, for exactly the bytes it sent up to the read that completed its
    request, and the lists hold exactly the connections they are about. -/
theorem good {ok : State → Action → Prop} {s : State} (h : service.Reach ok s) : Good s := by
  refine h.invariant ?_ fun s a s' hg _ hs => hg.step hs
  rintro s ⟨stopped, rfl⟩
  exact good_init stopped

end WebLib.Service
