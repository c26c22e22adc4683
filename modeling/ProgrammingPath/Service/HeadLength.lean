import ProgrammingPath.Forward.Text
import ProgrammingPath.Rtsp.Reader
import ProgrammingPath.Service.Proxy

/-!
# The length of a head

`rtsp_main.c` and `socket_forward.c` have a `string_http_heard_getlength`, `test_proxy.c` has an
`http_heard_getlength`. All look for one of four ends of a head at each place, and all find the end of the
first blank line. It does not move when more bytes arrive, so a reader that looks again behind each `recv`
comes to the same head however the bytes are cut.
-/

namespace ProgrammingPath.HeadLength

/-! ## Blank lines -/

def IsLineEnd (e : List UInt8) : Prop := e = [10] ∨ e = [13, 10]

/-- Two line ends in a row end at `n`. -/
def BlankEnd (buf : List UInt8) (n : Nat) : Prop :=
  ∃ pre first second rest, IsLineEnd first ∧ IsLineEnd second ∧ buf = pre ++ first ++ second ++ rest ∧
    n = (pre ++ first ++ second).length

/-- The first blank line ends at `n`. -/
def FirstBlank (buf : List UInt8) (n : Nat) : Prop := BlankEnd buf n ∧ ∀ m, BlankEnd buf m → n ≤ m

/-- What the code looks for: two line ends. -/
def blanks : List (List UInt8) := [[10, 10], [10, 13, 10], [13, 10, 10], [13, 10, 13, 10]]

theorem mem_blanks_iff {p : List UInt8} :
    p ∈ blanks ↔ ∃ first second, IsLineEnd first ∧ IsLineEnd second ∧ p = first ++ second := by
  constructor
  · intro hp
    simp only [blanks, List.mem_cons, List.not_mem_nil, or_false] at hp
    rcases hp with rfl | rfl | rfl | rfl
    · exact ⟨[10], [10], .inl rfl, .inl rfl, rfl⟩
    · exact ⟨[10], [13, 10], .inl rfl, .inr rfl, rfl⟩
    · exact ⟨[13, 10], [10], .inr rfl, .inl rfl, rfl⟩
    · exact ⟨[13, 10], [13, 10], .inr rfl, .inr rfl, rfl⟩
  · rintro ⟨first, second, rfl | rfl, rfl | rfl, rfl⟩ <;> simp [blanks]

theorem blankEnd_iff {buf : List UInt8} {n : Nat} :
    BlankEnd buf n ↔ n ≤ buf.length ∧ ∃ p ∈ blanks, p <:+ buf.take n := by
  constructor
  · rintro ⟨pre, first, second, rest, hfirst, hsecond, rfl, rfl⟩
    refine ⟨?_, first ++ second, mem_blanks_iff.mpr ⟨first, second, hfirst, hsecond, rfl⟩, pre, ?_⟩
    · exact (List.prefix_append _ rest).length_le
    · rw [List.take_left, List.append_assoc]
  · rintro ⟨hn, p, hp, pre, htake⟩
    obtain ⟨first, second, hfirst, hsecond, rfl⟩ := mem_blanks_iff.mp hp
    refine ⟨pre, first, second, buf.drop n, hfirst, hsecond, ?_, ?_⟩
    · rw [List.append_assoc pre, htake, List.take_append_drop]
    · rw [List.append_assoc, htake, List.length_take_of_le hn]

/-- No end of a head is over before the whole of it is there. -/
theorem blanks_minimal : ∀ p ∈ blanks, ∀ m, m < p.length → ∀ q ∈ blanks, ¬q <:+ p.take m := by decide +kernel

section

variable {buf more l : List UInt8} {b : UInt8} {n : Nat}

/-- Where one of the ends begins at the front, it is the first blank line. -/
theorem firstBlank_of_prefix {p : List UInt8} (hp : p ∈ blanks) (hfront : p <+: l) : FirstBlank l p.length := by
  obtain ⟨rest, rfl⟩ := hfront
  refine ⟨blankEnd_iff.mpr ⟨(List.prefix_append p rest).length_le, p, hp, ?_⟩, fun m hm => ?_⟩
  · rw [List.take_left]
  · by_contra hlt
    obtain ⟨-, q, hq, hsuffix⟩ := blankEnd_iff.mp hm
    rw [List.take_append_of_le_length (by omega)] at hsuffix
    exact blanks_minimal p hp m (Nat.not_le.mp hlt) q hq hsuffix

/-- Where none begins at the front, the blank lines are those of the rest. -/
theorem blankEnd_cons (hno : ∀ p ∈ blanks, ¬p <+: b :: l) :
    BlankEnd (b :: l) n ↔ ∃ m, n = m + 1 ∧ BlankEnd l m := by
  constructor
  · rintro ⟨_ | ⟨c, pre⟩, first, second, rest, hfirst, hsecond, hl, rfl⟩
    · refine absurd ?_ (hno _ (mem_blanks_iff.mpr ⟨first, second, hfirst, hsecond, rfl⟩))
      rw [hl]
      exact ⟨rest, rfl⟩
    · cases hl
      exact ⟨_, rfl, pre, first, second, rest, hfirst, hsecond, rfl, rfl⟩
  · rintro ⟨m, rfl, pre, first, second, rest, hfirst, hsecond, rfl, rfl⟩
    exact ⟨b :: pre, first, second, rest, hfirst, hsecond, rfl, rfl⟩

theorem FirstBlank.cons (hno : ∀ p ∈ blanks, ¬p <+: b :: l) (h : FirstBlank l n) : FirstBlank (b :: l) (n + 1) := by
  refine ⟨(blankEnd_cons hno).mpr ⟨n, rfl, h.1⟩, fun m hm => ?_⟩
  obtain ⟨k, rfl, hk⟩ := (blankEnd_cons hno).mp hm
  exact Nat.succ_le_succ (h.2 k hk)

theorem not_blankEnd_nil : ¬BlankEnd [] n := by
  intro h
  obtain ⟨-, q, hq, hsuffix⟩ := blankEnd_iff.mp h
  rw [List.take_nil, List.suffix_nil] at hsuffix
  subst hsuffix
  exact absurd hq (by decide)

theorem BlankEnd.two_le (h : BlankEnd buf n) : 2 ≤ n := by
  obtain ⟨pre, first, second, rest, rfl | rfl, rfl | rfl, -, rfl⟩ := h <;> simp

theorem FirstBlank.unique {m : Nat} (h : FirstBlank buf n) (h' : FirstBlank buf m) : n = m :=
  Nat.le_antisymm (h.2 m h'.1) (h'.2 n h.1)

/-- It stays the first one when more bytes arrive. -/
theorem FirstBlank.append (h : FirstBlank buf n) (more : List UInt8) : FirstBlank (buf ++ more) n := by
  obtain ⟨hn, p, hp, hsuffix⟩ := blankEnd_iff.mp h.1
  refine ⟨blankEnd_iff.mpr ⟨?_, p, hp, ?_⟩, fun m hm => ?_⟩
  · rw [List.length_append]
    omega
  · rwa [List.take_append_of_le_length hn]
  · by_contra hlt
    obtain ⟨-, q, hq, hshort⟩ := blankEnd_iff.mp hm
    rw [List.take_append_of_le_length (by omega)] at hshort
    exact hlt (h.2 m (blankEnd_iff.mpr ⟨by omega, q, hq, hshort⟩))

end

/-! ## The search -/

/-- The loop of the proxy ends at the first blank line. -/
theorem headLengthLoop_cases (pos : Nat) (l : List UInt8) :
    (∃ n, Proxy.headLengthLoop pos l = some (pos + n) ∧ FirstBlank l n) ∨
      (Proxy.headLengthLoop pos l = none ∧ ∀ n, ¬BlankEnd l n) := by
  induction l generalizing pos with
  | nil => exact .inr ⟨rfl, fun _ => not_blankEnd_nil⟩
  | cons b l ih =>
    rw [Proxy.headLengthLoop]
    split
    · next h => exact .inl ⟨2, rfl, firstBlank_of_prefix (by decide) h⟩
    split
    · next h => exact .inl ⟨3, rfl, firstBlank_of_prefix (by decide) h⟩
    split
    · next h => exact .inl ⟨3, rfl, firstBlank_of_prefix (by decide) h⟩
    split
    · next h => exact .inl ⟨4, rfl, firstBlank_of_prefix (by decide) h⟩
    next h1 h2 h3 h4 =>
    have hno : ∀ p ∈ blanks, ¬p <+: b :: l := by
      intro p hp
      simp only [blanks, List.mem_cons, List.not_mem_nil, or_false] at hp
      rcases hp with rfl | rfl | rfl | rfl
      · exact h1
      · exact h2
      · exact h3
      · exact h4
    rcases ih (pos + 1) with ⟨n, hn, hfirst⟩ | ⟨hnone, hblank⟩
    · exact .inl ⟨n + 1, by rw [hn, Nat.add_right_comm, Nat.add_assoc], hfirst.cons hno⟩
    · refine .inr ⟨hnone, fun n hn => ?_⟩
      obtain ⟨m, -, hm⟩ := (blankEnd_cons hno).mp hn
      exact hblank m hm

/-- The loop of the RTSP client is the same, with 0 where nothing is found. -/
theorem httpHeardGetlengthFrom_eq (i : Nat) (l : List UInt8) :
    Rtsp.httpHeardGetlengthFrom i l = (Proxy.headLengthLoop i l).getD 0 := by
  fun_induction Rtsp.httpHeardGetlengthFrom i l with
  | case1 => rfl
  | case2 i rest =>
    rw [Proxy.headLengthLoop, if_pos ⟨rest, rfl⟩]
    rfl
  | case3 i rest =>
    rw [Proxy.headLengthLoop, if_neg (by simp), if_pos ⟨rest, rfl⟩]
    rfl
  | case4 i rest =>
    rw [Proxy.headLengthLoop, if_neg (by simp), if_neg (by simp), if_pos ⟨rest, rfl⟩]
    rfl
  | case5 i rest =>
    rw [Proxy.headLengthLoop, if_neg (by simp), if_neg (by simp), if_neg (by simp), if_pos ⟨rest, rfl⟩]
    rfl
  | case6 i b rest h1 h2 h3 h4 ih =>
    rw [Proxy.headLengthLoop, if_neg, if_neg, if_neg, if_neg]
    · exact ih
    · rintro ⟨more, hmore⟩
      cases hmore
      exact h4 _ rfl rfl
    · rintro ⟨more, hmore⟩
      cases hmore
      exact h3 _ rfl rfl
    · rintro ⟨more, hmore⟩
      cases hmore
      exact h2 _ rfl rfl
    · rintro ⟨more, hmore⟩
      cases hmore
      exact h1 _ rfl rfl

/-! ## The functions -/

/-- The files that have such a function. -/
inductive File
  | rtspMain
  | socketForward
  | testProxy
  deriving DecidableEq, Repr

/-- What it returns when there is no blank line. -/
def File.notFound : File → Int
  | rtspMain => 0
  | socketForward | testProxy => -1

/-- `string_http_heard_getlength` and `http_heard_getlength`. -/
def File.getlength (buf : List UInt8) : File → Int
  | rtspMain => Rtsp.httpHeardGetlength buf
  | socketForward => (Forward.heardGetlength buf).elim (-1) Nat.cast
  | testProxy => (Proxy.httpHeardGetlength buf).elim (-1) Nat.cast

/-- The loops of `forward_session_handle_http` and `_loop_http_head_read`: as long as no length is found, what
`recv` returns next (nothing, when it has to be called again) is put behind the buffer. The head, `none` when
there is still none. -/
def headRead (file : File) : List UInt8 → List (List UInt8) → Option (List UInt8)
  | buf, [] => if file.getlength buf = file.notFound then none else some (buf.take (file.getlength buf).toNat)
  | buf, piece :: pieces =>
    if file.getlength buf = file.notFound then headRead file (buf ++ piece) pieces
    else some (buf.take (file.getlength buf).toNat)

/-- What the length of the head is, and that it does not depend on what arrives behind it. -/
structure PrefixStable (file : File) : Prop where
  result : ∀ buf, (∃ n, FirstBlank buf n ∧ file.getlength buf = n) ∨
    ((∀ n, ¬BlankEnd buf n) ∧ file.getlength buf = file.notFound)
  append : ∀ buf more, file.getlength buf ≠ file.notFound → file.getlength (buf ++ more) = file.getlength buf
  pieces : ∀ buf pieces, headRead file buf pieces = headRead file (buf ++ pieces.flatten) []

theorem File.getlength_cases (file : File) (buf : List UInt8) :
    (∃ n, FirstBlank buf n ∧ file.getlength buf = n) ∨
      ((∀ n, ¬BlankEnd buf n) ∧ file.getlength buf = file.notFound) := by
  have heq : Rtsp.httpHeardGetlength buf = (Proxy.headLengthLoop 0 buf).getD 0 := httpHeardGetlengthFrom_eq 0 buf
  rcases headLengthLoop_cases 0 buf with ⟨n, hn, hfirst⟩ | ⟨hnone, hblank⟩
  · rw [Nat.zero_add] at hn
    rw [hn, Option.getD_some] at heq
    refine .inl ⟨n, hfirst, ?_⟩
    cases file with
    | rtspMain => rw [getlength, heq]
    | socketForward =>
      rw [getlength, Forward.heardGetlength, heq, if_neg (Nat.ne_zero_of_lt hfirst.1.two_le)]
      rfl
    | testProxy =>
      rw [getlength, Proxy.httpHeardGetlength, hn]
      rfl
  · rw [hnone, Option.getD_none] at heq
    refine .inr ⟨hblank, ?_⟩
    cases file with
    | rtspMain =>
      rw [getlength, heq]
      rfl
    | socketForward =>
      rw [getlength, Forward.heardGetlength, heq, if_pos rfl]
      rfl
    | testProxy =>
      rw [getlength, Proxy.httpHeardGetlength, hnone]
      rfl

/-- What was found stays. -/
theorem File.getlength_append (file : File) (buf more : List UInt8) (h : file.getlength buf ≠ file.notFound) :
    file.getlength (buf ++ more) = file.getlength buf := by
  rcases file.getlength_cases buf with ⟨n, hfirst, hn⟩ | ⟨-, hnone⟩
  · rcases file.getlength_cases (buf ++ more) with ⟨m, hfirst', hm⟩ | ⟨hblank, -⟩
    · rw [hn, hm, hfirst'.unique (hfirst.append more)]
    · exact absurd (hfirst.append more).1 (hblank n)
  · exact absurd hnone h

/-- A head that was found lies in the buffer. -/
theorem File.take_append (file : File) (buf more : List UInt8) (h : file.getlength buf ≠ file.notFound) :
    (buf ++ more).take (file.getlength buf).toNat = buf.take (file.getlength buf).toNat := by
  rcases file.getlength_cases buf with ⟨n, hfirst, hn⟩ | ⟨-, hnone⟩
  · rw [hn, Int.toNat_natCast]
    exact List.take_append_of_le_length (blankEnd_iff.mp hfirst.1).1
  · exact absurd hnone h

theorem headRead_found {file : File} {buf : List UInt8} (h : file.getlength buf ≠ file.notFound)
    (pieces : List (List UInt8)) : headRead file buf pieces = some (buf.take (file.getlength buf).toNat) := by
  cases pieces with
  | nil => rw [headRead, if_neg h]
  | cons piece pieces => rw [headRead, if_neg h]

/-- However the bytes are cut, the head is that of all of them. -/
theorem headRead_flatten (file : File) (buf : List UInt8) (pieces : List (List UInt8)) :
    headRead file buf pieces = headRead file (buf ++ pieces.flatten) [] := by
  induction pieces generalizing buf with
  | nil => rw [List.flatten_nil, List.append_nil]
  | cons piece pieces ih =>
    by_cases h : file.getlength buf = file.notFound
    · have hturn : headRead file buf (piece :: pieces) = headRead file (buf ++ piece) pieces := by
        rw [headRead, if_pos h]
      rw [hturn, ih, List.append_assoc]
      rfl
    · have hmore : file.getlength (buf ++ (piece :: pieces).flatten) ≠ file.notFound := by
        rwa [file.getlength_append _ _ h]
      rw [headRead_found h, headRead_found hmore, file.getlength_append _ _ h, file.take_append _ _ h]

/-- The bytes that `_http_recv` takes one by one lead to the head of all of them. -/
theorem foldl_httpRecv (s : Rtsp.Reader) (bytes : List UInt8) :
    (bytes.foldl Rtsp.httpRecv { s with buffRtsp := [], headLength := 0 }).buffRtsp = bytes ∧
      (bytes.foldl Rtsp.httpRecv { s with buffRtsp := [], headLength := 0 }).headLength =
        Rtsp.httpHeardGetlength bytes := by
  induction bytes using List.reverseRecOn with
  | nil => exact ⟨rfl, rfl⟩
  | append_singleton bytes b ih =>
    obtain ⟨hbuff, hlength⟩ := ih
    rw [List.foldl_append, List.foldl_cons, List.foldl_nil, Rtsp.httpRecv]
    split
    · exact ⟨by rw [hbuff], by rw [hbuff]⟩
    · next hfound =>
      refine ⟨by rw [hbuff], ?_⟩
      rw [hlength] at hfound
      rw [hlength]
      exact (Rtsp.httpHeardGetlengthFrom_append_right [b] hfound).symm

/-- **The length of a head is stable**: it is the end of the first blank line for all three functions, more
bytes do not change it, and the readers come to the same head however the bytes arrive. -/
theorem getlength_prefixStable (file : File) (s : Rtsp.Reader) (bytes : List UInt8) :
    PrefixStable file ∧
      (bytes.foldl Rtsp.httpRecv { s with buffRtsp := [], headLength := 0 }).buffRtsp = bytes ∧
        (bytes.foldl Rtsp.httpRecv { s with buffRtsp := [], headLength := 0 }).headLength =
          Rtsp.httpHeardGetlength bytes :=
  ⟨⟨file.getlength_cases, file.getlength_append, headRead_flatten file⟩, foldl_httpRecv s bytes⟩

end ProgrammingPath.HeadLength
