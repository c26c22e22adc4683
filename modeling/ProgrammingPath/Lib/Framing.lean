import Mathlib.Data.List.Basic

/-!
# Reassembling a byte stream, one frame per read

A reader keeps a buffer. Each read appends a chunk and then cuts *at most one* frame off the
front of the buffer. The reader itself is a parameter (`cut`); what it must do is said by
`Cuts`: a complete frame at the front is cut off exactly, a proper prefix of a frame is left alone.

The result of the file is `reads_eq_iff`: when the chunks are a cutting of the concatenated
frames, the reader delivers all of them exactly when the chunks *keep up* with the frames, that
is, when no tail of the chunk list is shorter than the list of frames that end in it.
-/

namespace ProgrammingPath.Lib.Framing

variable {α : Type}

/-- One read per chunk: append the chunk, then cut at most one frame off the buffer. Returns the
frames cut, in order, and what stays in the buffer. -/
def reads (cut : List α → Option (List α × List α)) :
    List α → List (List α) → List (List α) × List α
  | buff, [] => ([], buff)
  | buff, c :: cs =>
    match cut (buff ++ c) with
    | some (f, rest) => ((f :: (reads cut rest cs).1), (reads cut rest cs).2)
    | none => reads cut (buff ++ c) cs

/-- How many of the frames lie completely within the first `n` elements of their concatenation. -/
def completed : List (List α) → Nat → Nat
  | [], _ => 0
  | f :: fs, n => if f.length ≤ n then completed fs (n - f.length) + 1 else 0

/-- The chunks keep up with the frames: whatever tail of the chunk list is still to come, it has
at least as many chunks as frames that end in it. -/
def KeepsUp (frames chunks : List (List α)) : Prop :=
  ∀ before after, chunks = before ++ after →
    frames.length ≤ completed frames before.flatten.length + after.length

/-- It is enough to look at the tails by their position. -/
theorem keepsUp_iff_take {frames chunks : List (List α)} :
    KeepsUp frames chunks ↔ ∀ k < chunks.length + 1,
      frames.length ≤ completed frames (chunks.take k).flatten.length + (chunks.length - k) := by
  constructor
  · intro h k _
    have := h (chunks.take k) (chunks.drop k) (List.take_append_drop k chunks).symm
    rwa [List.length_drop] at this
  · intro h before after hsplit
    have := h before.length (by rw [hsplit, List.length_append]; omega)
    rwa [hsplit, List.take_left, List.length_append, Nat.add_sub_cancel_left] at this

instance (frames chunks : List (List α)) : Decidable (KeepsUp frames chunks) :=
  decidable_of_iff _ keepsUp_iff_take.symm

/-- `cut` recognises the frame `f`: at the front of a buffer it is cut off exactly, and a proper
prefix of it is not mistaken for a frame. -/
structure Cuts (cut : List α → Option (List α × List α)) (f : List α) : Prop where
  ne_nil : f ≠ []
  whole : ∀ rest, cut (f ++ rest) = some (f, rest)
  part : ∀ p s, f = p ++ s → s ≠ [] → cut p = none

/-! ## Counting completed frames -/

theorem completed_zero {fs : List (List α)} (h : ∀ f ∈ fs, f ≠ []) : completed fs 0 = 0 := by
  cases fs with
  | nil => rfl
  | cons f fs =>
    have hf : 0 < f.length := List.length_pos_iff.mpr (h f (by simp))
    rw [completed, if_neg (by omega)]

theorem completed_cons_of_le {f : List α} {fs : List (List α)} {n : Nat} (h : f.length ≤ n) :
    completed (f :: fs) n = completed fs (n - f.length) + 1 := by
  rw [completed, if_pos h]

theorem completed_cons_of_lt {f : List α} {fs : List (List α)} {n : Nat} (h : n < f.length) :
    completed (f :: fs) n = 0 := by
  rw [completed, if_neg (by omega)]

/-! ## The condition with a backlog

For the induction the buffer may already hold bytes, even complete frames, so the condition is
generalised: `backlog` is what the buffer holds. The empty `before` needs a case of its own,
because frames that wait in the buffer still cost one read each. -/

/-- `KeepsUp` for a reader whose buffer already holds `n` elements of the frames. -/
def KeepsUpFrom (n : Nat) (frames chunks : List (List α)) : Prop :=
  frames.length ≤ chunks.length ∧
    ∀ before after, chunks = before ++ after → before ≠ [] →
      frames.length ≤ completed frames (n + before.flatten.length) + after.length

theorem keepsUpFrom_zero {frames chunks : List (List α)} (h : ∀ f ∈ frames, f ≠ []) :
    KeepsUpFrom 0 frames chunks ↔ KeepsUp frames chunks := by
  constructor
  · rintro ⟨hlen, htail⟩ before after hsplit
    by_cases hb : before = []
    · subst hb
      rw [List.flatten_nil, List.length_nil, completed_zero h]
      simp only [List.nil_append] at hsplit
      rw [← hsplit]
      omega
    · have := htail before after hsplit hb
      simpa using this
  · intro hk
    refine ⟨?_, ?_⟩
    · have := hk [] chunks rfl
      rw [List.flatten_nil, List.length_nil, completed_zero h] at this
      omega
    · intro before after hsplit _
      have := hk before after hsplit
      simpa using this

/-- A read that cuts a frame off: the condition passes to the remaining frames. -/
theorem keepsUpFrom_cut {f c : List α} {fs cs : List (List α)} {n : Nat}
    (h : f.length ≤ n + c.length) :
    KeepsUpFrom n (f :: fs) (c :: cs) ↔ KeepsUpFrom (n + c.length - f.length) fs cs := by
  have hshift : ∀ k, n + (c.length + k) - f.length = n + c.length - f.length + k := by
    intro k
    omega
  constructor
  · rintro ⟨hlen, htail⟩
    refine ⟨by simpa using hlen, ?_⟩
    intro before after hsplit _
    have := htail (c :: before) after (by simp [hsplit]) (by simp)
    rw [List.flatten_cons, List.length_append, completed_cons_of_le (by omega), hshift] at this
    simp only [List.length_cons] at this
    omega
  · rintro ⟨hlen, htail⟩
    refine ⟨by simpa using hlen, ?_⟩
    intro before after hsplit hne
    cases before with
    | nil => exact absurd rfl hne
    | cons b bs =>
      simp only [List.cons_append, List.cons.injEq] at hsplit
      obtain ⟨rfl, hsplit⟩ := hsplit
      rw [List.flatten_cons, List.length_append, completed_cons_of_le (by omega), hshift]
      simp only [List.length_cons]
      -- the condition speaks of proper beginnings only, so the first chunk alone is separate
      by_cases hbs : bs = []
      · subst hbs
        simp only [List.nil_append] at hsplit
        subst hsplit
        omega
      · have := htail bs after hsplit hbs
        omega

/-- A read that leaves the buffer short of a frame: the condition passes to the longer buffer. -/
theorem keepsUpFrom_wait {f c : List α} {fs cs : List (List α)} {n : Nat}
    (h : n + c.length < f.length) :
    KeepsUpFrom n (f :: fs) (c :: cs) ↔ KeepsUpFrom (n + c.length) (f :: fs) cs := by
  constructor
  · rintro ⟨_, htail⟩
    refine ⟨?_, ?_⟩
    · have := htail [c] cs rfl (by simp)
      rw [List.flatten_singleton, completed_cons_of_lt h] at this
      omega
    · intro before after hsplit _
      have := htail (c :: before) after (by simp [hsplit]) (by simp)
      rw [List.flatten_cons, List.length_append, ← Nat.add_assoc] at this
      exact this
  · rintro ⟨hlen, htail⟩
    refine ⟨by simp only [List.length_cons] at hlen ⊢; omega, ?_⟩
    intro before after hsplit hne
    cases before with
    | nil => exact absurd rfl hne
    | cons b bs =>
      simp only [List.cons_append, List.cons.injEq] at hsplit
      obtain ⟨rfl, hsplit⟩ := hsplit
      by_cases hbs : bs = []
      · subst hbs
        simp only [List.nil_append] at hsplit
        subst hsplit
        rw [List.flatten_singleton, completed_cons_of_lt h]
        omega
      · have := htail bs after hsplit hbs
        rw [List.flatten_cons, List.length_append, ← Nat.add_assoc]
        exact this

/-! ## What the reader delivers -/

/-- If the buffer and the chunks to come are the frames to come, the first frame to come decides
what `cut` does with the buffer: it is cut off when it is complete, and left when it is not. -/
theorem cut_eq_of_prefix {cut : List α → Option (List α × List α)} {f buff later : List α}
    {fs : List (List α)} (hf : Cuts cut f) (h : buff ++ later = f ++ fs.flatten) :
    (f.length ≤ buff.length → cut buff = some (f, buff.drop f.length)) ∧
      (buff.length < f.length → cut buff = none) := by
  constructor
  · intro hle
    have hpre : buff.take f.length = f := by
      have := congrArg (List.take f.length) h
      rwa [List.take_append_of_le_length hle, List.take_left] at this
    calc cut buff = cut (f ++ buff.drop f.length) := by
            conv_lhs => rw [← List.take_append_drop f.length buff, hpre]
      _ = some (f, buff.drop f.length) := hf.whole _
  · intro hlt
    have hpre : f.take buff.length = buff := by
      have := congrArg (List.take buff.length) h
      rw [List.take_left, List.take_append_of_le_length (by omega)] at this
      exact this.symm
    have hsplit : f = buff ++ f.drop buff.length := by
      conv_lhs => rw [← List.take_append_drop buff.length f, hpre]
    apply hf.part buff (f.drop buff.length) hsplit
    intro hnil
    have := congrArg List.length hnil
    simp only [List.length_drop, List.length_nil] at this
    omega

/-- Without the first frame, the buffer and the chunks to come are the other frames. -/
theorem drop_first {f buff later : List α} {fs : List (List α)} (hle : f.length ≤ buff.length)
    (h : buff ++ later = (f :: fs).flatten) : buff.drop f.length ++ later = fs.flatten := by
  have := congrArg (List.drop f.length) h
  rwa [List.drop_append_of_le_length hle, List.flatten_cons, List.drop_left] at this

/-- The frames delivered are always the first ones, in order, and what is not delivered is still
in the buffer. -/
theorem reads_prefix {cut : List α → Option (List α × List α)} {frames chunks : List (List α)}
    {buff : List α} (hcut : ∀ f ∈ frames, Cuts cut f)
    (hnil : cut [] = none)
    (h : buff ++ chunks.flatten = frames.flatten) :
    ∃ undelivered, frames = (reads cut buff chunks).1 ++ undelivered ∧
      (reads cut buff chunks).2 = undelivered.flatten := by
  induction chunks generalizing buff frames with
  | nil => exact ⟨frames, by simp [reads], by simpa [reads] using h⟩
  | cons c cs ih =>
    rw [List.flatten_cons, ← List.append_assoc] at h
    cases frames with
    | nil =>
      have hb : buff ++ c = [] := (List.append_eq_nil_iff.mp h).1
      rw [reads, hb, hnil]
      rw [hb] at h
      exact ih (by simp) h
    | cons f fs =>
      have hdec := cut_eq_of_prefix (hcut f (by simp)) h
      by_cases hle : f.length ≤ (buff ++ c).length
      · -- the frame is complete: it is delivered, and the rest of the buffer is the next one
        obtain ⟨und, hund, hbuf⟩ := ih (fun g hg => hcut g (by simp [hg])) (drop_first hle h)
        refine ⟨und, ?_, ?_⟩
        · simp only [reads, hdec.1 hle, List.cons_append]
          rw [← hund]
        · simp only [reads, hdec.1 hle]
          exact hbuf
      · rw [reads, hdec.2 (by omega)]
        exact ih hcut h

/-- A reader that delivers as many frames as there are has delivered them all. -/
theorem reads_eq_of_length {cut : List α → Option (List α × List α)}
    {frames chunks : List (List α)} {buff : List α} (hcut : ∀ f ∈ frames, Cuts cut f)
    (hnil : cut [] = none) (h : buff ++ chunks.flatten = frames.flatten)
    (hlen : (reads cut buff chunks).1.length = frames.length) :
    reads cut buff chunks = (frames, []) := by
  obtain ⟨und, hund, hbuf⟩ := reads_prefix hcut hnil h
  have hund0 : und = [] := by
    have := congrArg List.length hund
    rw [List.length_append] at this
    exact List.eq_nil_of_length_eq_zero (by omega)
  subst hund0
  rw [List.append_nil] at hund
  exact Prod.ext hund.symm (by simpa using hbuf)

/-- Everything is delivered exactly when the chunks keep up. -/
theorem reads_length_iff {cut : List α → Option (List α × List α)}
    {frames chunks : List (List α)} {buff : List α} (hcut : ∀ f ∈ frames, Cuts cut f)
    (hnil : cut [] = none)
    (h : buff ++ chunks.flatten = frames.flatten) :
    (reads cut buff chunks).1.length = frames.length ↔
      KeepsUpFrom buff.length frames chunks := by
  induction chunks generalizing buff frames with
  | nil =>
    simp only [reads, List.length_nil, KeepsUpFrom]
    constructor
    · intro h0
      -- without chunks there is no point at which the reader could have fallen behind
      refine ⟨by omega, ?_⟩
      intro before after hsplit hne
      exact absurd (List.append_eq_nil_iff.mp hsplit.symm).1 hne
    · rintro ⟨hlen, _⟩
      omega
  | cons c cs ih =>
    rw [List.flatten_cons, ← List.append_assoc] at h
    cases frames with
    | nil =>
      have hb : buff ++ c = [] := (List.append_eq_nil_iff.mp h).1
      rw [reads, hb, hnil]
      rw [hb] at h
      have hiff := @ih [] _ (by simp) h
      simp only [KeepsUpFrom, List.length_nil, Nat.zero_le, true_and, implies_true, iff_true]
        at hiff ⊢
      exact hiff
    | cons f fs =>
      have hdec := cut_eq_of_prefix (hcut f (by simp)) h
      by_cases hle : f.length ≤ (buff ++ c).length
      · have hiff := ih (fun g hg => hcut g (by simp [hg])) (drop_first hle h)
        rw [keepsUpFrom_cut (by simpa using hle)]
        simp only [reads, hdec.1 hle, List.length_cons, Nat.add_right_cancel_iff]
        rw [hiff, List.length_drop, List.length_append]
      · rw [reads, hdec.2 (by omega), ih hcut h, List.length_append,
          keepsUpFrom_wait (by simpa using hle)]

/-- Read one frame per chunk from an empty buffer: all frames are delivered, once each and in
order, with nothing left in the buffer, exactly when the chunks keep up with the frames. -/
theorem reads_eq_iff {cut : List α → Option (List α × List α)} {frames chunks : List (List α)}
    (hcut : ∀ f ∈ frames, Cuts cut f) (hnil : cut [] = none)
    (h : chunks.flatten = frames.flatten) :
    reads cut [] chunks = (frames, []) ↔ KeepsUp frames chunks := by
  have hpre : ([] : List α) ++ chunks.flatten = frames.flatten := by simpa using h
  rw [← keepsUpFrom_zero (fun f hf => (hcut f hf).ne_nil), show 0 = ([] : List α).length from rfl,
    ← reads_length_iff hcut hnil hpre]
  constructor
  · intro heq
    rw [heq]
  · intro hlen
    exact reads_eq_of_length hcut hnil hpre hlen

end ProgrammingPath.Lib.Framing
