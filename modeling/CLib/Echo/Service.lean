import Mathlib.Data.Int.Basic
import Mathlib.Data.List.Basic
import Mathlib.Tactic.Common

namespace CLib.Echo

abbrev Byte := UInt8

/-- `toupper` in the C locale. -/
def toupper (b : Byte) : Byte := if 97 ≤ b ∧ b ≤ 122 then b - 32 else b

/-- What `Read` gives: -1, where `reset` says whether `errno` is `ECONNRESET`, or the bytes
that it has put into the buffer. -/
inductive ReadResult
  | failed (reset : Bool)
  | bytes (bs : List Byte)
  deriving DecidableEq

namespace ReadResult

def data : ReadResult → List Byte
  | .failed _ => []
  | .bytes bs => bs

/-- The value `n` that `Read` returns. -/
def count : ReadResult → ℤ
  | .failed _ => -1
  | .bytes bs => bs.length

def isFailed : ReadResult → Bool
  | .failed _ => true
  | .bytes _ => false

def reset : ReadResult → Bool
  | .failed reset => reset
  | .bytes _ => false

/-- What the client should get back. -/
def reply (r : ReadResult) : List Byte := r.data.map toupper

theorem reply_of_isFailed {r : ReadResult} (h : r.isFailed) : r.reply = [] := by
  cases r with
  | failed _ => rfl
  | bytes _ => cases h

end ReadResult

/-- The handling of one read result: what the socket has accepted for it, and whether the
write function returned -1. -/
structure Round (κ : Type) where
  sock : κ
  result : ReadResult
  accepted : List Byte
  failed : Bool
  deriving DecidableEq

variable {κ : Type}

/-- A write error has cost the client some of the bytes. -/
def Round.lost (r : Round κ) : Bool := r.failed && !r.result.isFailed

/-- What a round does that loses nothing without an error. -/
structure Round.Sound (r : Round κ) : Prop where
  inOrder : r.accepted <+: r.result.reply
  complete : r.lost = false → r.accepted = r.result.reply

theorem Round.Sound.silent {r : Round κ} (h : r.Sound) (hr : r.result.isFailed) : r.accepted = [] := by
  have hprefix := h.inOrder
  rw [ReadResult.reply_of_isFailed hr] at hprefix
  exact List.prefix_nil.mp hprefix

theorem Round.Sound.failed_or {r : Round κ} (h : r.Sound) : r.failed ∨ r.accepted = r.result.reply := by
  cases hf : r.failed with
  | true => exact .inl rfl
  | false => exact .inr (h.complete (by simp [Round.lost, hf]))

section Streams
variable [DecidableEq κ] {c : κ} {r : Round κ} {done : List (Round κ)}

/-- The reply to everything that has been read from a client. -/
def replies (rounds : List (Round κ)) (c : κ) : List Byte :=
  rounds.flatMap fun r => if r.sock = c then r.result.reply else []

def written (rounds : List (Round κ)) (c : κ) : List Byte :=
  rounds.flatMap fun r => if r.sock = c then r.accepted else []

theorem replies_concat (done : List (Round κ)) (r : Round κ) (c : κ) :
    replies (done ++ [r]) c = replies done c ++ if r.sock = c then r.result.reply else [] := by
  simp [replies]

theorem written_concat (done : List (Round κ)) (r : Round κ) (c : κ) :
    written (done ++ [r]) c = written done c ++ if r.sock = c then r.accepted else [] := by
  simp [written]

/-- The service: the rounds that are `done`, and the one that is being handled, give every
client the upper-cased bytes that were read from it, without a gap, and nothing else. -/
structure Serves (done : List (Round κ)) (current : Option (Round κ)) : Prop where
  inOrder : ∀ c, written (done ++ current.toList) c <+: replies (done ++ current.toList) c
  complete : ∀ r ∈ done, r.failed ∨ r.accepted = r.result.reply
  silent : ∀ r ∈ done ++ current.toList, r.result.isFailed → r.accepted = []

/-- The rounds so far have lost nothing of a client, or nothing has been sent since. -/
structure Sound (done : List (Round κ)) : Prop where
  round : ∀ r ∈ done, r.Sound
  inOrder : ∀ c, written done c <+: replies done c
  caughtUp : ∀ c, (∀ r ∈ done, r.sock = c → r.lost = false) → written done c = replies done c

theorem sound_nil : Sound ([] : List (Round κ)) :=
  ⟨by simp, fun _ => List.prefix_rfl, fun _ _ => rfl⟩

theorem Sound.inOrder_concat (h : Sound done) (hr : r.accepted <+: r.result.reply)
    (hgap : (∃ r' ∈ done, r'.sock = r.sock ∧ r'.lost) → r.accepted = []) (c : κ) :
    written (done ++ [r]) c <+: replies (done ++ [r]) c := by
  rw [written_concat, replies_concat]
  by_cases hc : r.sock = c
  · rw [if_pos hc, if_pos hc]
    by_cases hlost : ∃ r' ∈ done, r'.sock = r.sock ∧ r'.lost
    · rw [hgap hlost, List.append_nil]
      exact (h.inOrder c).trans (List.prefix_append _ _)
    · have hnone : ∀ r' ∈ done, r'.sock = c → r'.lost = false := by
        intro r' hr' hsock
        rw [Bool.eq_false_iff]
        exact fun hl => hlost ⟨r', hr', hsock.trans hc.symm, hl⟩
      rw [h.caughtUp c hnone]
      exact (List.prefix_append_right_inj _).mpr hr
  · rw [if_neg hc, if_neg hc, List.append_nil, List.append_nil]
    exact h.inOrder c

theorem Sound.concat (h : Sound done) (hr : r.Sound)
    (hgap : (∃ r' ∈ done, r'.sock = r.sock ∧ r'.lost) → r.accepted = []) : Sound (done ++ [r]) := by
  refine ⟨fun r' hr' => ?_, h.inOrder_concat hr.inOrder hgap, fun c hc => ?_⟩
  · rcases List.mem_append.mp hr' with hr' | hr'
    · exact h.round r' hr'
    · rw [List.mem_singleton.mp hr']
      exact hr
  · have hdone := h.caughtUp c fun r' hr' => hc r' (List.mem_append_left _ hr')
    rw [written_concat, replies_concat, hdone]
    by_cases hsock : r.sock = c
    · rw [if_pos hsock, if_pos hsock, hr.complete (hc r (by simp) hsock)]
    · rw [if_neg hsock, if_neg hsock]

theorem Sound.serves (h : Sound done) : Serves done none := by
  constructor
  · simpa using h.inOrder
  · exact fun r hr => (h.round r hr).failed_or
  · intro r hr
    exact (h.round r (by simpa using hr)).silent

theorem Sound.serves_current (h : Sound done) (hr : r.accepted <+: r.result.reply)
    (hgap : (∃ r' ∈ done, r'.sock = r.sock ∧ r'.lost) → r.accepted = []) :
    Serves done (some r) := by
  constructor
  · exact h.inOrder_concat hr hgap
  · exact fun r hr => (h.round r hr).failed_or
  · intro r' hr' hfailed
    rcases List.mem_append.mp hr' with hr' | hr'
    · exact (h.round r' hr').silent hfailed
    · rw [List.mem_singleton.mp hr'] at hfailed ⊢
      rw [ReadResult.reply_of_isFailed hfailed] at hr
      exact List.prefix_nil.mp hr

end Streams
end CLib.Echo
