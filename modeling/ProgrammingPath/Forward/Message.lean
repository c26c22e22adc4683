import ProgrammingPath.Forward.Text

/-!
# Messages

A message with a head of lines, one of which gives the length of the body. The handlers for SIP and
for HTTP find the end of the head and the length with the same two functions.
-/

namespace ProgrammingPath.Forward

open ProgrammingPath.Lib
open ProgrammingPath.Rtsp (scanInt scanInt_append_line exists_of_scanInt httpHeardGetlengthFrom_append)

/-! ## Lines -/

theorem length_unlines_cons (l : List UInt8) (lines : List (List UInt8)) :
    (unlines (l :: lines)).length = l.length + 1 + (unlines lines).length := by
  simp [unlines]
  omega

theorem unlines_middle (lines lines' : List (List UInt8)) (l : List UInt8) :
    unlines (lines ++ l :: lines') = unlines lines ++ (l ++ 10 :: unlines lines') := by
  rw [unlines_append]
  congr 1
  have h := unlines_cons l lines' []
  rwa [List.append_nil, List.append_nil] at h

theorem length_le_unlines (lines : List (List UInt8)) : lines.length ≤ (unlines lines).length := by
  induction lines with
  | nil => exact Nat.le_refl 0
  | cons l lines ih =>
    rw [length_unlines_cons, List.length_cons]
    omega

/-- The number in a line is read in the line. -/
theorem scanInt_line {value : List UInt8} {v : Int} (h : scanInt value = some v) (rest : List UInt8) :
    scanInt (value ++ 10 :: rest) = some v := by
  rw [scanInt_append_line (exists_of_scanInt h), h]

/-! ## A head and a body -/

/-- The lines of a head, with the one that has the length between the others, and a body. -/
structure MessageText where
  before : List (List UInt8)
  key : List UInt8
  value : List UInt8
  after : List (List UInt8)
  body : List UInt8

def MessageText.lines (m : MessageText) : List (List UInt8) := m.before ++ (m.key ++ m.value) :: m.after

def MessageText.head (m : MessageText) : List UInt8 := unlines m.lines

def MessageText.bytes (m : MessageText) : List UInt8 := m.head ++ m.body

/-- A complete message with one `Content-Length` line, whose value is the length of the body. -/
structure Message extends MessageText where
  line : ∀ l ∈ toMessageText.lines, IsLine l
  complete : heardGetlength toMessageText.bytes = some toMessageText.head.length
  key_eq : key.map toLower = contentLengthKey.map toLower
  value_eq : scanInt value = some body.length
  only : ∀ l ∈ before ++ after, startsCI contentLengthKey l = false

namespace Message

variable (m : Message)

theorem isLine_before {l : List UInt8} (hl : l ∈ m.before) : IsLine l :=
  m.line l (List.mem_append_left _ hl)

theorem isLine_after {l : List UInt8} (hl : l ∈ m.after) : IsLine l :=
  m.line l (List.mem_append_right _ (List.mem_cons_of_mem _ hl))

theorem not_startsCI_before {l : List UInt8} (hl : l ∈ m.before) : startsCI contentLengthKey l = false :=
  m.only l (List.mem_append_left _ hl)

theorem not_startsCI_after {l : List UInt8} (hl : l ∈ m.after) : startsCI contentLengthKey l = false :=
  m.only l (List.mem_append_right _ hl)

theorem nul_head : 0 ∉ m.head := by
  intro hmem
  obtain ⟨l, hl, hnul⟩ := List.mem_flatMap.mp hmem
  rcases List.mem_append.mp hnul with hnul | hnul
  · exact (m.line l hl).2 hnul
  · exact absurd hnul (by decide)

theorem head_eq : m.head = unlines m.before ++ (m.key ++ m.value ++ 10 :: unlines m.after) := by
  rw [MessageText.head, MessageText.lines, unlines_middle]

theorem length_key : m.key.length = 15 := by
  have h := congrArg List.length m.key_eq
  rw [List.length_map, List.length_map] at h
  rw [h]
  decide +kernel

theorem startsCI_key : startsCI contentLengthKey (m.key ++ m.value) = true := by
  apply startsCI_append
  rw [startsCI_iff, List.take_of_length_le, m.key_eq]
  rw [m.length_key]
  decide +kernel

/-- The head is complete as soon as it is there. -/
theorem heardGetlength_part {part : List UInt8} (hpart : part <+: m.body) :
    heardGetlength (m.head ++ part) = some m.head.length := by
  obtain ⟨rest, hrest⟩ := hpart
  have h := m.complete
  rw [MessageText.bytes, ← hrest, ← List.append_assoc, heardGetlength, Rtsp.httpHeardGetlength] at h
  rw [heardGetlength, Rtsp.httpHeardGetlength]
  split at h
  · cases h
  · next hne =>
    rw [Option.some.injEq] at h
    have hlen : (m.head ++ part).length = m.head.length + part.length := List.length_append
    rw [httpHeardGetlengthFrom_append h (by omega) (by omega), if_neg (by omega)]

theorem head?_lengthLine (rest : List UInt8) : (m.key ++ m.value ++ rest).head? ≠ some 13 := by
  have hlower : ∀ b ∈ contentLengthKey.map toLower, b ≠ toLower 13 := by decide +kernel
  obtain ⟨b, bs, hbs⟩ : ∃ b bs, m.key = b :: bs := by
    apply List.exists_cons_of_length_pos
    rw [m.length_key]
    exact Nat.zero_lt_succ 14
  rw [hbs, List.cons_append, List.cons_append, List.head?_cons]
  intro h
  apply hlower (toLower b)
  · rw [← m.key_eq, hbs]
    exact List.mem_cons_self
  · rw [Option.some.inj h]

/-- The length that the handler reads, when nothing is behind the head. -/
theorem headGetContentLength_head (behind : List UInt8) :
    headGetContentLength (m.head ++ behind) m.head.length = m.body.length := by
  have hline := m.line _ (List.mem_append_right m.before List.mem_cons_self)
  have hblank := blankLast_of_heardGetlength m.complete
  have hlen : m.head.length =
      (unlines m.before).length + (m.key ++ m.value ++ 10 :: unlines m.after).length := by
    rw [m.head_eq, List.length_append]
  have hmore : (m.key ++ m.value ++ 10 :: unlines m.after).length =
      (m.key ++ m.value).length + 1 + (unlines m.after).length := by
    rw [List.length_append, List.length_cons]
    omega
  have hfuel := length_le_unlines m.before
  obtain ⟨fuel, hfuel⟩ : ∃ f, m.head.length = f + 1 + m.before.length :=
    ⟨m.head.length - 1 - m.before.length, by omega⟩
  have hread : scanInt (cstr ((m.key ++ m.value ++ 10 :: (unlines m.after ++ behind)).drop 15)) =
      some (m.body.length : Int) := by
    rw [List.append_assoc, ← m.length_key, List.drop_left, cstr_append]
    · exact scanInt_line m.value_eq _
    · exact fun h => hline.2 (List.mem_append_right _ h)
  have hkey : startsCI contentLengthKey (m.key ++ m.value) = true := m.startsCI_key
  rw [m.head_eq] at hblank
  rw [headGetContentLength]
  conv => lhs; congr; rw [hfuel]
  rw [hlen, m.head_eq, List.append_assoc,
    contentLengthLoop_before (fun l hl => m.isLine_before hl)
      (fun l hl => m.not_startsCI_before hl) hblank (by simp) (m.head?_lengthLine _),
    hmore, List.append_assoc, List.cons_append, contentLengthLoop_line hline]
  simp only [hkey, if_true, hread, Option.getD_some]
  split
  · rfl
  · exact contentLengthLoop_without (fun l hl => m.isLine_after hl)
      (fun l hl => m.not_startsCI_after hl) _ _ _

end Message

end ProgrammingPath.Forward
