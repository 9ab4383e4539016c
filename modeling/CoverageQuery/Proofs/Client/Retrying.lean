import CoverageQuery.Client.Connector
import Mathlib.Data.List.Infix
import Mathlib.Logic.Function.Iterate

/-!
# Requests that are made again

A loop makes a request, and makes it again after a failure that may pass, as long as a counter of
thirty-two bits is below the limit. It settles on the first outcome that is no such failure, or on that
of the last retry. Up to there the counter is the number of the retries made, which never exceeds the
limit, so it cannot overflow. A session asks in this way for queries and for documents: what the server
has been asked then, and what the caller gets, is what the loop ends with.
-/
namespace CoverageQuery

namespace Retry

variable {σ ε α : Type} {mayPass : ε → Bool}

/-- `k` is the number of the first outcome that is no passing failure, or the limit if that is less. -/
structure Settles (mayPass : ε → Bool) (outcomes : Nat → Except ε α) (limit k : Nat) : Prop where
  le : k ≤ limit
  passing : ∀ i < k, isPassing mayPass (outcomes i) = true
  settled : k < limit → isPassing mayPass (outcomes k) = false

theorem exists_settles (mayPass : ε → Bool) (outcomes : Nat → Except ε α) (limit : Nat) :
    ∃ k, Settles mayPass outcomes limit k ∧ count mayPass outcomes limit = k + 1 := by
  induction limit generalizing outcomes with
  | zero => exact ⟨0, ⟨Nat.le_refl 0, fun i hi => absurd hi (Nat.not_lt_zero i),
      fun h => absurd h (Nat.lt_irrefl 0)⟩, rfl⟩
  | succ limit ih =>
    rw [count]
    cases hfirst : isPassing mayPass (outcomes 0) with
    | false =>
      exact ⟨0, ⟨Nat.zero_le _, fun i hi => absurd hi (Nat.not_lt_zero i), fun _ => hfirst⟩, rfl⟩
    | true =>
      obtain ⟨k, hk, hcount⟩ := ih fun n => outcomes (n + 1)
      refine ⟨k + 1, ⟨Nat.succ_le_succ hk.le, fun i hi => ?_,
        fun h => hk.settled (Nat.lt_of_succ_lt_succ h)⟩, ?_⟩
      · cases i with
        | zero => exact hfirst
        | succ i => exact hk.passing i (Nat.lt_of_succ_lt_succ hi)
      · rw [if_pos rfl, hcount, Nat.add_comm]

theorem Settles.unique {outcomes : Nat → Except ε α} {limit k l : Nat}
    (hk : Settles mayPass outcomes limit k) (hl : Settles mayPass outcomes limit l) : k = l := by
  -- The smaller one would be settled and passing at once.
  rcases Nat.lt_trichotomy k l with h | h | h
  · exact Bool.noConfusion ((hk.settled (Nat.lt_of_lt_of_le h hl.le)).symm.trans (hl.passing k h))
  · exact h
  · exact Bool.noConfusion ((hl.settled (Nat.lt_of_lt_of_le h hk.le)).symm.trans (hk.passing l h))

theorem Settles.count_eq {outcomes : Nat → Except ε α} {limit k : Nat}
    (h : Settles mayPass outcomes limit k) : count mayPass outcomes limit = k + 1 := by
  obtain ⟨l, hl, hcount⟩ := exists_settles mayPass outcomes limit
  rw [hcount, h.unique hl]

theorem Settles.answer_eq {outcomes : Nat → Except ε α} {limit k : Nat}
    (h : Settles mayPass outcomes limit k) : answer mayPass outcomes limit = outcomes k := by
  rw [answer, h.count_eq, Nat.add_sub_cancel]

inductive Loop (σ ε α : Type) where
  | asking (retries : UInt32) (state : σ)
  | ended (outcome : Except ε α) (state : σ)

def Loop.round (mayPass : ε → Bool) (request : σ → Except ε α × σ) (limit : UInt32) :
    Loop σ ε α → Loop σ ε α
  | asking retries s =>
    let (outcome, s) := request s
    if isPassing mayPass outcome ∧ retries < limit then asking (retries + 1) s else ended outcome s
  | ended outcome s => ended outcome s

def Loop.after (mayPass : ε → Bool) (request : σ → Except ε α × σ) (limit : UInt32) (s : σ)
    (rounds : Nat) : Loop σ ε α :=
  (round mayPass request limit)^[rounds] (asking 0 s)

def stateAfter (request : σ → Except ε α × σ) (s : σ) (requests : Nat) : σ :=
  (fun s => (request s).2)^[requests] s

def outcomeOf (request : σ → Except ε α × σ) (s : σ) (n : Nat) : Except ε α :=
  (request (stateAfter request s n)).1

/-- The loop makes `k + 1` requests and ends with the outcome of the last. Before each of them the
counter is the number of the requests made. -/
structure Runs (mayPass : ε → Bool) (request : σ → Except ε α × σ) (limit : UInt32) (s : σ)
    (k : Nat) : Prop where
  settles : Settles mayPass (outcomeOf request s) limit.toNat k
  counted : ∀ i ≤ k, ∃ retries,
    Loop.after mayPass request limit s i = .asking retries (stateAfter request s i) ∧
      retries.toNat = i
  ended : Loop.after mayPass request limit s (k + 1) =
    .ended (outcomeOf request s k) (stateAfter request s (k + 1))

theorem Loop.after_succ (mayPass : ε → Bool) (request : σ → Except ε α × σ) (limit : UInt32) (s : σ)
    (n : Nat) :
    after mayPass request limit s (n + 1) =
      round mayPass request limit (after mayPass request limit s n) :=
  Function.iterate_succ_apply' _ _ _

theorem stateAfter_succ (request : σ → Except ε α × σ) (s : σ) (n : Nat) :
    stateAfter request s (n + 1) = (request (stateAfter request s n)).2 :=
  Function.iterate_succ_apply' _ _ _

theorem Loop.round_asking (request : σ → Except ε α × σ) (limit retries : UInt32) (s : σ) (n : Nat) :
    round mayPass request limit (.asking retries (stateAfter request s n)) =
      if isPassing mayPass (outcomeOf request s n) ∧ retries < limit then
        .asking (retries + 1) (stateAfter request s (n + 1))
      else .ended (outcomeOf request s n) (stateAfter request s (n + 1)) := by
  rw [stateAfter_succ]
  rfl

theorem toNat_succ_of_lt {retries limit : UInt32} (h : retries < limit) :
    (retries + 1).toNat = retries.toNat + 1 := by
  have hlt : retries.toNat < limit.toNat := UInt32.lt_iff_toNat_lt.1 h
  have hlimit := limit.toNat_lt
  rw [UInt32.toNat_add, UInt32.toNat_one, Nat.mod_eq_of_lt (by omega)]

theorem Loop.counted_of_settles {request : σ → Except ε α × σ} {limit : UInt32} {s : σ} {k : Nat}
    (h : Settles mayPass (outcomeOf request s) limit.toNat k) {i : Nat} (hi : i ≤ k) :
    ∃ retries, after mayPass request limit s i = .asking retries (stateAfter request s i) ∧
      retries.toNat = i := by
  induction i with
  | zero => exact ⟨0, rfl, rfl⟩
  | succ i ih =>
    obtain ⟨retries, hafter, hretries⟩ := ih (Nat.le_of_succ_le hi)
    have hlt : retries < limit := by
      rw [UInt32.lt_iff_toNat_lt, hretries]
      exact Nat.lt_of_lt_of_le hi h.le
    refine ⟨retries + 1, ?_, by rw [toNat_succ_of_lt hlt, hretries]⟩
    rw [after_succ, hafter, round_asking, if_pos ⟨h.passing i hi, hlt⟩]

theorem runs_of_settles {request : σ → Except ε α × σ} {limit : UInt32} {s : σ} {k : Nat}
    (h : Settles mayPass (outcomeOf request s) limit.toNat k) : Runs mayPass request limit s k := by
  refine ⟨h, fun i => Loop.counted_of_settles h, ?_⟩
  obtain ⟨retries, hafter, hretries⟩ := Loop.counted_of_settles h (Nat.le_refl k)
  have hstop : ¬(isPassing mayPass (outcomeOf request s k) = true ∧ retries < limit) := by
    rintro ⟨hpassing, hlt⟩
    rw [UInt32.lt_iff_toNat_lt, hretries] at hlt
    exact Bool.noConfusion ((h.settled hlt).symm.trans hpassing)
  rw [Loop.after_succ, hafter, Loop.round_asking, if_neg hstop]

theorem exists_runs (mayPass : ε → Bool) (request : σ → Except ε α × σ) (limit : UInt32) (s : σ) :
    ∃ k, Runs mayPass request limit s k := by
  obtain ⟨k, hk, _⟩ := exists_settles mayPass (outcomeOf request s) limit.toNat
  exact ⟨k, runs_of_settles hk⟩

end Retry

namespace Reply

def mayPass (limits : Limits) : Reply → Bool
  | refusal => true
  | drop => false
  | answer status _ _ => 500 ≤ status ∨ status = 429
  | slow connection whole status _ _ =>
    connection < limits.connection ∧ whole < limits.whole → 500 ≤ status ∨ status = 429

theorem isPassing_answered (status : Nat) (contentType : Option String) (body : Utf8.Bytes) :
    Retry.isPassing ClientError.isRetryable (answered status contentType body) =
      decide (500 ≤ status ∨ status = 429) := by
  simp only [answered]
  split
  · rename_i h
    simp only [isSuccess, decide_eq_true_eq] at h
    exact (decide_eq_false (by omega)).symm
  · rfl

theorem isPassing_outcome (limits : Limits) (r : Reply) :
    Retry.isPassing ClientError.isRetryable (r.outcome limits) = r.mayPass limits := by
  cases r with
  | refusal => rfl
  | drop => rfl
  | answer status contentType body => exact isPassing_answered status contentType body
  | slow connection whole status contentType body =>
    simp only [outcome, mayPass]
    split
    · rename_i hintime
      rw [isPassing_answered]
      exact decide_eq_decide.2 (imp_iff_right hintime).symm
    · rename_i hlate
      exact (decide_eq_true fun hintime => absurd hintime hlate).symm

theorem outcome_of_mayPass {status : Nat} (h : 500 ≤ status ∨ status = 429) (limits : Limits)
    (contentType : Option String) (body : Utf8.Bytes) :
    (answer status contentType body).outcome limits = .error (.status status (errorText body)) := by
  have hsuccess : isSuccess status = false := decide_eq_false (by omega)
  have hbodiless : isBodiless status = false := decide_eq_false (by omega)
  simp only [outcome, answered, hsuccess, hbodiless, Bool.false_eq_true, if_false]

end Reply

namespace Server

variable (limits : Limits)

def once (request : Request) (s : Server) : Except ClientError Payload × Server :=
  ((s.replies s.asked).outcome limits,
    { s with asked := s.asked + 1, received := s.received ++ (s.sees limits request s.asked).toList })

def after (s : Server) (request : Request) (n : Nat) : Server :=
  { s with
    asked := s.asked + n
    received := s.received ++ (List.range n).filterMap fun i => s.sees limits request (s.asked + i) }

theorem stateAfter_once (s : Server) (request : Request) (n : Nat) :
    Retry.stateAfter (once limits request) s n = s.after limits request n := by
  induction n with
  | zero => simp [Retry.stateAfter, after]
  | succ n ih =>
    have hlast : [n].filterMap (fun i => s.sees limits request (s.asked + i)) =
        (s.sees limits request (s.asked + n)).toList := by
      cases h : s.sees limits request (s.asked + n) <;> simp [h]
    rw [Retry.stateAfter_succ, ih]
    simp only [after, List.range_succ, List.filterMap_append, hlast, ← List.append_assoc]
    rfl

theorem outcomeOf_once (s : Server) (request : Request) :
    Retry.outcomeOf (once limits request) s = s.outcomes limits := by
  funext n
  rw [Retry.outcomeOf, stateAfter_once]
  rfl

variable {limits : Limits}

theorem ask_eq {s : Server} {limit k : Nat}
    (h : Retry.Settles ClientError.isRetryable (s.outcomes limits) limit k) (request : Request) :
    s.ask limits request limit = (s.outcomes limits k, s.after limits request (k + 1)) := by
  rw [ask, h.count_eq, h.answer_eq]
  rfl

theorem le_of_settles {s : Server} {limit k : Nat}
    (h : Retry.Settles ClientError.isRetryable (s.outcomes limits) limit k) {i status : Nat}
    {contentType : Option String} {body : Utf8.Bytes}
    (hreply : s.replies (s.asked + i) = .answer status contentType body) (hlow : status < 500)
    (hother : status ≠ 429) : k ≤ i := by
  by_contra hi
  have hpassing := h.passing i (Nat.lt_of_not_le hi)
  rw [outcomes, Reply.isPassing_outcome, hreply, Reply.mayPass, decide_eq_true_eq] at hpassing
  omega

def Fails (s : Server) (n : Nat) : Prop :=
  ∃ status contentType body, s.replies n = .answer status contentType body ∧
    (500 ≤ status ∨ status = 429)

theorem eq_limit_of_fails {s : Server} {limit k : Nat}
    (h : Retry.Settles ClientError.isRetryable (s.outcomes limits) limit k)
    (hfails : ∀ i ≤ limit, s.Fails (s.asked + i)) : k = limit := by
  by_contra hne
  obtain ⟨status, contentType, body, hreply, hstatus⟩ := hfails k h.le
  have hsettled := h.settled (Nat.lt_of_le_of_ne h.le hne)
  rw [outcomes, Reply.isPassing_outcome, hreply, Reply.mayPass, decide_eq_false_iff_not] at hsettled
  exact hsettled hstatus

end Server

namespace Session

def limit (s : Session) : UInt32 := s.connector.settings.maxRetries

def outcomes (s : Session) : Nat → Except ClientError Payload :=
  s.server.outcomes s.connector.settings.limits

def once (s : Session) (request : Request) : Server → Except ClientError Payload × Server :=
  Server.once s.connector.settings.limits request

def after (s : Session) (request : Request) (n : Nat) : Session :=
  { s with server := s.server.after s.connector.settings.limits request n }

variable {s : Session} {k : Nat}

theorem ask_eq (h : Retry.Settles ClientError.isRetryable s.outcomes s.limit.toNat k)
    (request : Request) : s.ask request = (s.outcomes k, s.after request (k + 1)) := by
  have hask := Server.ask_eq h request
  rw [limit] at hask
  rw [ask, hask]
  rfl

theorem document_eq (h : Retry.Settles ClientError.isRetryable s.outcomes s.limit.toNat k)
    (request : Request) :
    s.document request = (s.outcomes k >>= Payload.text, s.after request (k + 1)) := by
  rw [document, ask_eq h]

theorem runs_once (h : Retry.Settles ClientError.isRetryable s.outcomes s.limit.toNat k)
    (request : Request) :
    Retry.Runs ClientError.isRetryable (s.once request) s.limit s.server k := by
  refine Retry.runs_of_settles ?_
  rw [once, Server.outcomeOf_once]
  exact h

theorem loop_ended (h : Retry.Settles ClientError.isRetryable s.outcomes s.limit.toNat k)
    (request : Request) :
    Retry.Loop.after ClientError.isRetryable (s.once request) s.limit s.server (k + 1) =
      .ended (s.ask request).1 (s.ask request).2.server := by
  rw [(runs_once h request).ended, once, Server.outcomeOf_once, Server.stateAfter_once, ask_eq h]
  rfl

/-- Every loop of requests, whatever the requests do and whatever may pass, runs until it settles. A
session asks for a query, for the capabilities and for a coverage in the same way: the same request
`k + 1` times, for the outcome of the last, be that a text or not. No reply but a refusal, a late one or
a failing status is followed by another request, and a server that keeps failing is asked as often as
the limit allows and reported with its last failure. -/
theorem asks_until_settled (s : Session) :
    (∀ (σ ε α : Type) (mayPass : ε → Bool) (request : σ → Except ε α × σ) (limit : UInt32) (start : σ),
      ∃ k, Retry.Runs mayPass request limit start k) ∧
    ∃ k, Retry.Settles ClientError.isRetryable s.outcomes s.limit.toNat k ∧
      (∀ request, Retry.Runs ClientError.isRetryable (s.once request) s.limit s.server k ∧
        Retry.Loop.after ClientError.isRetryable (s.once request) s.limit s.server (k + 1) =
          .ended (s.ask request).1 (s.ask request).2.server) ∧
      (∀ text, s.submit text =
        (s.outcomes k, s.after (s.connector.queryRequest text) (k + 1))) ∧
      s.capabilities = (s.outcomes k >>= Payload.text,
        s.after s.connector.capabilitiesRequest (k + 1)) ∧
      (∀ coverage, s.coverage coverage = (s.outcomes k >>= Payload.text,
        s.after (s.connector.coverageRequest coverage) (k + 1))) ∧
      (∀ i status contentType body,
        s.server.replies (s.server.asked + i) = .answer status contentType body →
        status < 500 → status ≠ 429 → k ≤ i) ∧
      ((∀ i ≤ s.limit.toNat, s.server.Fails (s.server.asked + i)) →
        k = s.limit.toNat ∧ ∃ status contentType body,
          s.server.replies (s.server.asked + k) = .answer status contentType body ∧
            s.outcomes k = .error (.status status (Reply.errorText body))) := by
  refine ⟨fun _ _ _ => Retry.exists_runs, ?_⟩
  obtain ⟨k, hk, _⟩ := Retry.exists_settles ClientError.isRetryable s.outcomes s.limit.toNat
  refine ⟨k, hk, fun request => ⟨runs_once hk request, loop_ended hk request⟩,
    fun text => ask_eq hk _, document_eq hk _, fun coverage => document_eq hk _,
    fun i status contentType body => Server.le_of_settles hk,
    fun hfails => ⟨Server.eq_limit_of_fails hk hfails, ?_⟩⟩
  obtain ⟨status, contentType, body, hreply, hstatus⟩ := hfails k hk.le
  refine ⟨status, contentType, body, hreply, ?_⟩
  rw [outcomes, Server.outcomes, hreply, Reply.outcome_of_mayPass hstatus]

/-- A server that is busy, refuses, is late, is asked too often and then answers with bytes that are no
text. -/
def flakySession : Session :=
  ⟨⟨{ serverUrl := "http://host/ows", maxRetries := 5 },
      ⟨"http", [], .domain "host".toList, none, ["ows".toList], none, none⟩⟩,
    Server.ofReplies [.answer 503 none [], .refusal, .slow 10 60000 200 none [], .answer 429 none [],
      .answer 200 none [0xFF], .answer 200 none []]⟩

theorem asks_until_settled_example :
    flakySession.capabilities.1 = .error (.nondecodable (.notText ⟨0, some 1⟩)) ∧
    flakySession.capabilities.2.server.asked = 5 ∧
    flakySession.capabilities.2.server.received =
      List.replicate 4 flakySession.connector.capabilitiesRequest ∧
    ∃ retries server, Retry.Loop.after ClientError.isRetryable
      (flakySession.once flakySession.connector.capabilitiesRequest) 5 flakySession.server 4 =
        .asking retries server ∧ retries.toNat = 4 := by
  obtain ⟨_, k, _, hruns, _, hcapabilities, _⟩ := asks_until_settled flakySession
  have hasked : flakySession.capabilities.2.server.asked = 5 := by decide +kernel
  obtain rfl : k = 4 := by
    rw [hcapabilities] at hasked
    exact Nat.succ.inj ((Nat.zero_add _).symm.trans hasked)
  obtain ⟨retries, hafter, hretries⟩ :=
    (hruns flakySession.connector.capabilitiesRequest).1.counted 4 (Nat.le_refl 4)
  have hanswer : flakySession.capabilities.1 = .error (.nondecodable (.notText ⟨0, some 1⟩)) := by
    decide +kernel
  have hreceived : flakySession.capabilities.2.server.received =
      List.replicate 4 flakySession.connector.capabilitiesRequest := by
    decide +kernel
  exact ⟨hanswer, hasked, hreceived, retries, _, hafter, hretries⟩

end Session
end CoverageQuery
