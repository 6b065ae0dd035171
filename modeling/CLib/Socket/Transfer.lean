import CLib.Base.CString

namespace CLib.Socket
open CLib.Base

/-- How the system answers a call of `read`: with `EINTR`, with another error, or with at most
`k` of the bytes. -/
inductive ReadAnswer
  | interrupted
  | failed
  | upTo (k : ℕ)
  deriving DecidableEq

/-- The result of one call of `read`; no bytes are the end of the stream. -/
inductive Returned
  | interrupted
  | failed
  | bytes (bs : Text)
  deriving DecidableEq

/-- A descriptor to read from: the bytes that are still to come, and the answers to the next
calls. Behind these a call takes as much as it may. -/
structure Source where
  rest : Text
  answers : List ReadAnswer
  deriving DecidableEq

/-- `read(fd, ptr, size)`. It returns a byte at least if there is one. -/
def Source.read (size : ℕ) (s : Source) : Returned × Source :=
  match s.answers with
  | [] => (.bytes (s.rest.take size), ⟨s.rest.drop size, []⟩)
  | .interrupted :: as => (.interrupted, ⟨s.rest, as⟩)
  | .failed :: as => (.failed, ⟨s.rest, as⟩)
  | .upTo k :: as =>
    (.bytes (s.rest.take (min size (max 1 k))), ⟨s.rest.drop (min size (max 1 k)), as⟩)

/-- How the system answers a call of `write`. -/
inductive WriteAnswer
  | interrupted
  | failed
  | accepted (k : ℕ)
  deriving DecidableEq

/-- The result of one call of `write`. -/
inductive Written
  | interrupted
  | failed
  | count (k : ℕ)
  deriving DecidableEq

/-- A descriptor to write to: the bytes put on it so far, and the answers to the next calls.
Behind these a call writes all it is given. -/
structure Sink where
  sent : Text
  answers : List WriteAnswer
  deriving DecidableEq

/-- `write(fd, ptr, size)` with the bytes at `ptr`. -/
def Sink.write (bs : Text) (s : Sink) : Written × Sink :=
  match s.answers with
  | [] => (.count bs.length, ⟨s.sent ++ bs, []⟩)
  | .interrupted :: as => (.interrupted, ⟨s.sent, as⟩)
  | .failed :: as => (.failed, ⟨s.sent, as⟩)
  | .accepted k :: as => (.count (min k bs.length), ⟨s.sent ++ bs.take k, as⟩)

namespace Source
variable {size : ℕ} {s s' : Source}

theorem read_interrupted (h : s.read size = (.interrupted, s')) :
    s.answers = .interrupted :: s'.answers ∧ s'.rest = s.rest := by
  obtain ⟨rest, answers⟩ := s
  match answers with
  | .interrupted :: as =>
    obtain ⟨-, rfl⟩ := Prod.mk.inj h
    exact ⟨rfl, rfl⟩

theorem read_failed (h : s.read size = (.failed, s')) :
    s.answers = .failed :: s'.answers ∧ s'.rest = s.rest := by
  obtain ⟨rest, answers⟩ := s
  match answers with
  | .failed :: as =>
    obtain ⟨-, rfl⟩ := Prod.mk.inj h
    exact ⟨rfl, rfl⟩

theorem read_bytes {bs : Text} (hsize : 0 < size) (h : s.read size = (.bytes bs, s')) :
    ∃ used k, .failed ∉ used ∧ s.answers = used ++ s'.answers ∧ 0 < k ∧ k ≤ size ∧
      bs = s.rest.take k ∧ s'.rest = s.rest.drop k := by
  obtain ⟨rest, answers⟩ := s
  match answers with
  | [] =>
    obtain ⟨hbs, rfl⟩ := Prod.mk.inj h
    exact ⟨[], size, by simp, rfl, hsize, Nat.le_refl _, (Returned.bytes.inj hbs).symm, rfl⟩
  | .upTo k :: as =>
    obtain ⟨hbs, rfl⟩ := Prod.mk.inj h
    exact ⟨[.upTo k], min size (max 1 k), by simp, rfl, by omega, by omega,
      (Returned.bytes.inj hbs).symm, rfl⟩

end Source

namespace Sink
variable {bs : Text} {s s' : Sink}

theorem write_interrupted (h : s.write bs = (.interrupted, s')) :
    s.answers = .interrupted :: s'.answers ∧ s'.sent = s.sent := by
  obtain ⟨sent, answers⟩ := s
  match answers with
  | .interrupted :: as =>
    obtain ⟨-, rfl⟩ := Prod.mk.inj h
    exact ⟨rfl, rfl⟩

theorem write_failed (h : s.write bs = (.failed, s')) :
    s.answers = .failed :: s'.answers ∧ s'.sent = s.sent := by
  obtain ⟨sent, answers⟩ := s
  match answers with
  | .failed :: as =>
    obtain ⟨-, rfl⟩ := Prod.mk.inj h
    exact ⟨rfl, rfl⟩

theorem write_zero (hbs : bs ≠ []) (h : s.write bs = (.count 0, s')) :
    s.answers = .accepted 0 :: s'.answers ∧ s'.sent = s.sent := by
  have hpos : 0 < bs.length := List.length_pos_iff.mpr hbs
  obtain ⟨sent, answers⟩ := s
  match answers with
  | [] =>
    obtain ⟨hcount, -⟩ := Prod.mk.inj h
    exact absurd (Written.count.inj hcount) (Nat.ne_of_gt hpos)
  | .accepted k :: as =>
    obtain ⟨hcount, rfl⟩ := Prod.mk.inj h
    have hzero : k = 0 := by
      have hmin := Written.count.inj hcount
      omega
    simp [hzero]

theorem write_count {k : ℕ} (h : s.write bs = (.count (k + 1), s')) :
    ∃ used, .failed ∉ used ∧ .accepted 0 ∉ used ∧ s.answers = used ++ s'.answers ∧
      k + 1 ≤ bs.length ∧ s'.sent = s.sent ++ bs.take (k + 1) := by
  obtain ⟨sent, answers⟩ := s
  match answers with
  | [] =>
    obtain ⟨hcount, rfl⟩ := Prod.mk.inj h
    have hlen := Written.count.inj hcount
    exact ⟨[], by simp, by simp, rfl, Nat.le_of_eq hlen.symm, by rw [← hlen, List.take_length]⟩
  | .accepted m :: as =>
    obtain ⟨hcount, rfl⟩ := Prod.mk.inj h
    have hlen := Written.count.inj hcount
    refine ⟨[.accepted m], by simp, ?_, rfl, by omega, ?_⟩
    · have hne : m ≠ 0 := by omega
      simpa using hne.symm
    · rw [← hlen, ← List.take_eq_take_min]

end Sink

/-- What `Readn` returns, the bytes it has stored from `vptr` on, and the descriptor after it. -/
structure Reading where
  result : ℤ
  stored : Text
  source : Source
  deriving DecidableEq

/-- The loop of `Readn`. -/
def readLoop (n nleft : ℕ) (stored : Text) (s : Source) : Reading :=
  if _hleft : nleft = 0 then ⟨n - nleft, stored, s⟩
  else
    match h : s.read nleft with
    | (.interrupted, s') => readLoop n nleft stored s'
    | (.failed, s') => ⟨-1, stored, s'⟩
    | (.bytes [], s') => ⟨n - nleft, stored, s'⟩
    | (.bytes (c :: cs), s') => readLoop n (nleft - (c :: cs).length) (stored ++ c :: cs) s'
termination_by nleft + s.answers.length
decreasing_by
  · rw [(Source.read_interrupted h).1, List.length_cons]
    omega
  · obtain ⟨used, k, -, has, -⟩ := Source.read_bytes (Nat.pos_of_ne_zero _hleft) h
    rw [has, List.length_append, List.length_cons]
    omega

def readn (n : ℕ) (s : Source) : Reading := readLoop n n [] s

/-- The loop of `Writen` on the memory from `vptr` on. -/
def writeLoop (n : ℕ) (buf : Text) (ptr nleft : ℕ) (s : Sink) : ℤ × Sink :=
  if _hleft : nleft = 0 then (n, s)
  else
    match h : s.write ((buf.drop ptr).take nleft) with
    | (.interrupted, s') => writeLoop n buf ptr nleft s'
    | (.failed, s') => (-1, s')
    | (.count 0, s') => (-1, s')
    | (.count (k + 1), s') => writeLoop n buf (ptr + (k + 1)) (nleft - (k + 1)) s'
termination_by nleft + s.answers.length
decreasing_by
  · rw [(Sink.write_interrupted h).1, List.length_cons]
    omega
  · obtain ⟨used, -, -, has, -⟩ := Sink.write_count h
    rw [has, List.length_append]
    omega

def writen (buf : Text) (n : ℕ) (s : Sink) : ℤ × Sink := writeLoop n buf 0 n s

/-- What reading `nleft` more bytes comes to. With an error among the answers used up the result
is -1, and else all bytes are stored that the stream still has, up to `nleft`. -/
def Reads (done : ℤ) (nleft : ℕ) (stored : Text) (s : Source) (r : Reading) : Prop :=
  ∃ used, s.answers = used ++ r.source.answers ∧ (.failed ∈ used → r.result = -1) ∧
    (.failed ∉ used → r.stored = stored ++ s.rest.take nleft ∧ r.source.rest = s.rest.drop nleft ∧
      r.result = done + (s.rest.take nleft).length)

/-- What writing `bs` comes to. With an error among the answers used up the result is -1 and a
part of the bytes has been sent, and else all of them. -/
def Writes (n : ℕ) (bs : Text) (s : Sink) (r : ℤ × Sink) : Prop :=
  ∃ used, s.answers = used ++ r.2.answers ∧
    ((.failed ∈ used ∨ .accepted 0 ∈ used) → r.1 = -1 ∧ ∃ part, part <+: bs ∧ r.2.sent = s.sent ++ part) ∧
    (.failed ∉ used → .accepted 0 ∉ used → r.1 = n ∧ r.2.sent = s.sent ++ bs)

section Loops
variable {n nleft k : ℕ} {stored : Text} {done : ℤ}

theorem Reads.interrupted {s s' : Source} {r : Reading} (h : Reads done nleft stored s' r)
    (hs : s.answers = .interrupted :: s'.answers) (hrest : s'.rest = s.rest) :
    Reads done nleft stored s r := by
  obtain ⟨used, hused, hfailed, hread⟩ := h
  rw [hrest] at hread
  refine ⟨.interrupted :: used, ?_, fun hm => hfailed (by simpa using hm),
    fun hm => hread (by simpa using hm)⟩
  rw [hs, List.cons_append, ← hused]

theorem Reads.bytes {s s' : Source} {first : List ReadAnswer} {r : Reading} (hk : k ≤ nleft)
    (hfirst : .failed ∉ first) (hs : s.answers = first ++ s'.answers)
    (hdrop : s'.rest = s.rest.drop k)
    (h : Reads (done + (s.rest.take k).length) (nleft - (s.rest.take k).length)
      (stored ++ s.rest.take k) s' r) :
    Reads done nleft stored s r := by
  obtain ⟨used, hused, hfailed, hread⟩ := h
  rw [hdrop] at hread
  have hlen : (s.rest.take k).length ≤ nleft := (List.length_take_le _ _).trans hk
  have htake : s.rest.take k ++ (s.rest.drop k).take (nleft - (s.rest.take k).length) =
      s.rest.take nleft := by
    conv_rhs => rw [← List.take_append_drop k s.rest, List.take_append, List.take_of_length_le hlen]
  have hafter : (s.rest.drop k).drop (nleft - (s.rest.take k).length) = s.rest.drop nleft := by
    conv_rhs => rw [← List.take_append_drop k s.rest, List.drop_append, List.drop_of_length_le hlen,
      List.nil_append]
  refine ⟨first ++ used, ?_, fun hm => ?_, fun hm => ?_⟩
  · rw [hs, List.append_assoc, ← hused]
  · exact hfailed ((List.mem_append.mp hm).resolve_left hfirst)
  · obtain ⟨hstored, hrest, hresult⟩ := hread fun hmem => hm (List.mem_append_right _ hmem)
    refine ⟨?_, hrest.trans hafter, ?_⟩
    · rw [hstored, List.append_assoc, htake]
    · rw [hresult, ← htake, List.length_append, Nat.cast_add, Int.add_assoc]

theorem reads_readLoop (n nleft : ℕ) (stored : Text) (s : Source) :
    Reads (n - nleft) nleft stored s (readLoop n nleft stored s) := by
  fun_induction readLoop n nleft stored s with
  | case1 stored s => exact ⟨[], rfl, by simp, by simp⟩
  | case2 nleft stored s hleft s' h ih =>
    obtain ⟨has, hrest⟩ := Source.read_interrupted h
    exact ih.interrupted has hrest
  | case3 nleft stored s hleft s' h =>
    obtain ⟨has, -⟩ := Source.read_failed h
    exact ⟨[.failed], has, by simp, by simp⟩
  | case4 nleft stored s hleft s' h =>
    -- No bytes: the stream has come to its end.
    obtain ⟨used, k, hfailed, has, hpos, -, hbytes, hrest⟩ :=
      Source.read_bytes (Nat.pos_of_ne_zero hleft) h
    have hnil : s.rest = [] := (List.take_eq_nil_iff.mp hbytes.symm).resolve_left (Nat.ne_of_gt hpos)
    exact ⟨used, has, fun hm => absurd hm hfailed, fun _ => by simp [hrest, hnil]⟩
  | case5 nleft stored s hleft c cs s' h ih =>
    obtain ⟨used, k, hfailed, has, hpos, hk, hbytes, hrest⟩ :=
      Source.read_bytes (Nat.pos_of_ne_zero hleft) h
    rw [hbytes] at ih ⊢
    apply Reads.bytes hk hfailed has hrest
    have hlen : (s.rest.take k).length ≤ nleft := (List.length_take_le _ _).trans hk
    have hdone : (n : ℤ) - (nleft - (s.rest.take k).length : ℕ) =
        n - nleft + (s.rest.take k).length := by omega
    rwa [hdone] at ih

theorem Writes.interrupted {s s' : Sink} {bs : Text} {r : ℤ × Sink} (h : Writes n bs s' r)
    (hs : s.answers = .interrupted :: s'.answers) (hsent : s'.sent = s.sent) : Writes n bs s r := by
  obtain ⟨used, hused, hfailed, hwritten⟩ := h
  rw [hsent] at hfailed hwritten
  refine ⟨.interrupted :: used, ?_, fun hm => hfailed (by simpa using hm),
    fun hm hm' => hwritten (by simpa using hm) (by simpa using hm')⟩
  rw [hs, List.cons_append, ← hused]

theorem Writes.count {s s' : Sink} {bs : Text} {first : List WriteAnswer} {r : ℤ × Sink}
    (hfirst : .failed ∉ first) (hfirst' : .accepted 0 ∉ first)
    (hs : s.answers = first ++ s'.answers) (hsent : s'.sent = s.sent ++ bs.take k)
    (h : Writes n (bs.drop k) s' r) : Writes n bs s r := by
  obtain ⟨used, hused, hfailed, hwritten⟩ := h
  rw [hsent] at hfailed hwritten
  refine ⟨first ++ used, ?_, fun hm => ?_, fun hm hm' => ?_⟩
  · rw [hs, List.append_assoc, ← hused]
  · obtain ⟨hresult, part, hpart, hsent'⟩ := hfailed (hm.imp
      (fun hm => (List.mem_append.mp hm).resolve_left hfirst)
      (fun hm => (List.mem_append.mp hm).resolve_left hfirst'))
    refine ⟨hresult, bs.take k ++ part, ?_, by rw [hsent', List.append_assoc]⟩
    conv_rhs => rw [← List.take_append_drop k bs]
    exact (List.prefix_append_right_inj _).mpr hpart
  · obtain ⟨hresult, hsent'⟩ := hwritten (fun hmem => hm (List.mem_append_right _ hmem))
      (fun hmem => hm' (List.mem_append_right _ hmem))
    exact ⟨hresult, by rw [hsent', List.append_assoc, List.take_append_drop]⟩

theorem writes_writeLoop (n : ℕ) (buf : Text) (ptr nleft : ℕ) (s : Sink)
    (hbuf : ptr + nleft ≤ buf.length) :
    Writes n ((buf.drop ptr).take nleft) s (writeLoop n buf ptr nleft s) := by
  fun_induction writeLoop n buf ptr nleft s with
  | case1 ptr s => exact ⟨[], rfl, by simp, by simp⟩
  | case2 ptr nleft s hleft s' h ih =>
    obtain ⟨has, hsent⟩ := Sink.write_interrupted h
    exact (ih hbuf).interrupted has hsent
  | case3 ptr nleft s hleft s' h =>
    obtain ⟨has, hsent⟩ := Sink.write_failed h
    exact ⟨[.failed], has, fun _ => ⟨rfl, [], List.nil_prefix, by rw [hsent, List.append_nil]⟩, by simp⟩
  | case4 ptr nleft s hleft s' h =>
    have hne : (buf.drop ptr).take nleft ≠ [] := by
      rw [← List.length_pos_iff, List.length_take, List.length_drop]
      omega
    obtain ⟨has, hsent⟩ := Sink.write_zero hne h
    exact ⟨[.accepted 0], has, fun _ => ⟨rfl, [], List.nil_prefix, by rw [hsent, List.append_nil]⟩,
      by simp⟩
  | case5 ptr nleft s hleft k s' h ih =>
    obtain ⟨used, hfailed, hzero, has, hk, hsent⟩ := Sink.write_count h
    have hle : k + 1 ≤ nleft := hk.trans (List.length_take_le _ _)
    apply Writes.count hfailed hzero has hsent
    rw [List.drop_take, List.drop_drop]
    exact ih (by omega)

end Loops

theorem readn_spec (n : ℕ) (s : Source) :
    ∃ used, s.answers = used ++ (readn n s).source.answers ∧
      ((readn n s).result = -1 ↔ .failed ∈ used) ∧
      (.failed ∉ used → (readn n s).result = (s.rest.take n).length ∧
        (readn n s).stored = s.rest.take n ∧ (readn n s).source.rest = s.rest.drop n) := by
  obtain ⟨used, hused, hfailed, hread⟩ := reads_readLoop n n [] s
  have hdone : .failed ∉ used → (readn n s).result = (s.rest.take n).length := by
    intro hm
    rw [readn, (hread hm).2.2, Int.sub_self, Int.zero_add]
  refine ⟨used, hused, ⟨fun h => ?_, hfailed⟩, fun hm => ⟨hdone hm, (hread hm).1, (hread hm).2.1⟩⟩
  by_contra hm
  have hresult := hdone hm
  omega

theorem writen_spec (buf : Text) (s : Sink) :
    ∃ used, s.answers = used ++ (writen buf buf.length s).2.answers ∧
      ((writen buf buf.length s).1 = -1 ↔ .failed ∈ used ∨ .accepted 0 ∈ used) ∧
      ((writen buf buf.length s).1 = -1 ∨ (writen buf buf.length s).1 = buf.length) ∧
      ((writen buf buf.length s).1 = buf.length →
        (writen buf buf.length s).2.sent = s.sent ++ buf) ∧
      ∃ part, part <+: buf ∧ (writen buf buf.length s).2.sent = s.sent ++ part := by
  have hwrites := writes_writeLoop buf.length buf 0 buf.length s (by omega)
  rw [List.drop_zero, List.take_length] at hwrites
  obtain ⟨used, hused, hfailed, hwritten⟩ := hwrites
  rw [writen]
  by_cases hhard : .failed ∈ used ∨ .accepted 0 ∈ used
  · obtain ⟨hresult, hpart⟩ := hfailed hhard
    exact ⟨used, hused, by simp [hresult, hhard], .inl hresult, by omega, hpart⟩
  · obtain ⟨hresult, hsent⟩ := hwritten (fun hm => hhard (.inl hm)) fun hm => hhard (.inr hm)
    exact ⟨used, hused, by simp only [hhard, iff_false]; omega, .inr hresult, fun _ => hsent,
      buf, List.prefix_rfl, hsent⟩

/-- For every buffer and all answers of the system: `Writen` returns -1 if it got a hard error,
and else n with exactly the buffer put on the channel. Where the channel delivers a beginning of
what was put there and closes, `Readn` returns the bytes delivered, or -1 after a hard error;
where more comes behind the buffer, it leaves that for the next call. -/
theorem readn_writen (buf sent : Text) (writes : List WriteAnswer) (reads : List ReadAnswer) :
    let w := writen buf buf.length ⟨sent, writes⟩
    (∃ used, writes = used ++ w.2.answers ∧
      (w.1 = -1 ↔ .failed ∈ used ∨ .accepted 0 ∈ used) ∧ (w.1 = -1 ∨ w.1 = buf.length) ∧
      (w.1 = buf.length → w.2.sent = sent ++ buf)) ∧
    (∃ part, part <+: buf ∧ w.2.sent = sent ++ part ∧ ∀ delivered, delivered <+: part →
      let r := readn buf.length ⟨delivered, reads⟩
      ∃ used, reads = used ++ r.source.answers ∧ (r.result = -1 ↔ .failed ∈ used) ∧
        (.failed ∉ used → r.result = delivered.length ∧ r.stored = delivered)) ∧
    ∀ later,
      let r := readn buf.length ⟨buf ++ later, reads⟩
      ∃ used, reads = used ++ r.source.answers ∧ (r.result = -1 ↔ .failed ∈ used) ∧
        (.failed ∉ used → r.result = buf.length ∧ r.stored = buf ∧ r.source.rest = later) := by
  obtain ⟨used, hused, hhard, hresult, hsent, part, hpart, hpartial⟩ := writen_spec buf ⟨sent, writes⟩
  refine ⟨⟨used, hused, hhard, hresult, hsent⟩, ⟨part, hpart, hpartial, fun delivered h => ?_⟩,
    fun later => ?_⟩
  · have hspec := readn_spec buf.length ⟨delivered, reads⟩
    rw [List.take_of_length_le (h.length_le.trans hpart.length_le)] at hspec
    obtain ⟨used, hused, hhard, hread⟩ := hspec
    exact ⟨used, hused, hhard, fun hm => ⟨(hread hm).1, (hread hm).2.1⟩⟩
  · have hspec := readn_spec buf.length ⟨buf ++ later, reads⟩
    rwa [List.take_left, List.drop_left] at hspec

end CLib.Socket
